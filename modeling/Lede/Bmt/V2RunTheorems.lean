/-
Lede.Bmt.V2RunTheorems — runs of the `mediatek,bmt-v2` back end: a factory scan,
then any sequence of stores and remaps, under any behaviour of the chip.

`V2Run` carries the number of pool entries and the list of pool blocks handed
out so far. It is parametrised by a guard on the state before each step, so
that one definition serves both the runs the driver can make and the runs
`v2Run_exclusive` is about.

## The 0xffff index

`upload_bmt` returns `(u16)-1` once it has given up every slot. At attach
`mtk_bmt_init_v2` turns that into an error; `remap_block_v2` stores it in
`bmt_blk_idx` and goes on, and the next `find_valid_block_in_pool` walks 65535
entries of a table that has a handful. `remapBlockV2_not_exclusive` is a run in
which that walk meets an old byte behind the table and hands out a block that
is in use.

## What the maintenance entries do

`unmap_block_v2` maps a block back to its own number, which after a factory
scan with bad blocks may be the image of another block; the pool collection
looks for users of a pool block among the blocks `1 .. pmt_block - 1` only.
`maintenance_iff` says exactly when neither matters.
-/
import Lede.Bmt.V2Theorems

namespace Lede.Bmt

open Lede.Nand Lede.Lib

/-! ## Runs -/

/-- The states reached by a successful scan and stores and remaps after it, each
from a state that satisfies `ok`. -/
inductive V2Run (d : V2Desc) (dev : LowerDev) (ok : Bmtd V2Tbl → Prop) :
    Nat → List Nat → Bmtd V2Tbl → Prop where
  | scan (s : Bmtd V2Tbl) (h : (scanBadBlocks d dev s).1 = true) :
      V2Run d dev ok ((scanBadBlocks d dev s).2.tbl.bmtBlkIdx + 1) [] (scanBadBlocks d dev s).2
  | store {N : Nat} {handed : List Nat} {s : Bmtd V2Tbl} (hrun : V2Run d dev ok N handed s)
      (hok : ok s) : V2Run d dev ok N handed (uploadAtIdx d dev s)
  | remap {N : Nat} {handed : List Nat} {s : Bmtd V2Tbl} (hrun : V2Run d dev ok N handed s)
      (hok : ok s) (block mappedBlock copyLen : Nat) (hblock : block < d.poolLba) :
      V2Run d dev ok N (handedOut d s.tbl ++ handed)
        (remapBlockV2 d dev s block mappedBlock copyLen).2

/-- The mapping is exclusive: no two logical blocks share a block, every block is
on the chip, none is the block that stores the table, and no pool block was
handed out twice. -/
structure V2Exclusive (d : V2Desc) (handed : List Nat) (tbl : V2Tbl) : Prop where
  inj : BbInj d tbl.mem
  lt : ∀ i < d.poolLba, bbTbl tbl.mem i < d.totalBlks
  not_table : tbl.bmtBlkIdx ≠ noSlot →
    ∀ i < d.poolLba, bbTbl tbl.mem i ≠ bmtBlock d tbl.mem tbl.bmtBlkIdx
  once : handed.Nodup

section Run

variable {d : V2Desc} {dev : LowerDev} {N : Nat} {handed : List Nat} {s : Bmtd V2Tbl}

/-- The invariant holds along every run that stops at a lost table. -/
theorem V2Run.inv (hts : d.poolLba ≤ d.tableSize)
    (h : V2Run d dev (fun s => s.tbl.bmtBlkIdx ≠ noSlot) N handed s) : V2Inv d N handed s.tbl := by
  induction h with
  | scan s hok => exact scanBadBlocks_inv hts s hok
  | store _ hok ih => exact ih.upload hts hok
  | remap _ hok block mappedBlock copyLen hblock ih =>
    exact ih.remap hts hok hblock mappedBlock copyLen

theorem V2Inv.exclusive (h : V2Inv d N handed s.tbl) : V2Exclusive d handed s.tbl where
  inj := h.bb_inj
  lt := h.bb_lt
  not_table := by
    intro hidx
    obtain ⟨hN, hnz⟩ := h.slot hidx
    have hfree : bmtMark d s.tbl.mem s.tbl.bmtBlkIdx ≠ normalMapped := by
      intro hmark
      exact Nat.lt_irrefl _ (h.normal_lt _ hN hmark)
    exact h.free_unused _ hN (hnz _ (Nat.le_refl _)) hfree
  once := h.handed_nodup

/-- Mapping exclusivity: in every run in which `bb_tbl` has a word for each
logical block and no step is taken once `bmt_blk_idx` is 0xffff, for every
behaviour of the chip. -/
theorem v2Run_exclusive (hts : d.poolLba ≤ d.tableSize)
    (h : V2Run d dev (fun s => s.tbl.bmtBlkIdx ≠ noSlot) N handed s) :
    V2Exclusive d handed s.tbl :=
  (h.inv hts).exclusive

end Run

/-! ### A run in which the table is lost -/

/-- Six blocks of 64 pages of 2 KiB, three of them in the pool. -/
def v2Desc : V2Desc where
  blkShift := 17
  pgShift := 11
  totalBlks := 6
  pgShift_le := pages2K_le
  totalBlks_lt := by decide
  remapRange := []
  disjoint := List.Pairwise.nil
  bmtPgs := 1
  oobOffset := 0
  size_le := by decide
  tableSize := 6
  poolSize := 3
  totalBlks_pos := by decide
  poolSize_lt := by decide
  bmtPgs_eq := by decide

/-- No erase succeeds from moment 8 on. -/
def wornDev : LowerDev :=
  { LowerDev.perfect v2Desc.toGeometry with eraseOk := fun clock _ => decide (clock < 8) }

/-- A blank chip at moment `clock`. -/
def blankFlash (clock : Nat) : Flash := ⟨fun _ => v2Desc.erasedPage, [], clock⟩

/-- The tables as `mtk_bmt_init_v2` hands them to the scan, with one byte that is
not zero right behind `bmt_tbl`. -/
def v2Start : Bmtd V2Tbl where
  flash := blankFlash 0
  tbl := { mem := fun a => if a = v2Desc.bmtOff 6 then 3 else 0, bmtBlkIdx := 0, poolPba := 0 }

/-- On the blank chip every block is good. -/
theorem findValidBlock_blank (k clock : Nat) {block : Nat} (h : block < 6) :
    findValidBlock v2Desc wornDev k (blankFlash clock) block = (block, blankFlash (clock + 1)) := by
  rw [findValidBlock, if_neg (by show ¬ block ≥ 6; omega)]
  rfl

theorem findValidBlock_end (k clock : Nat) :
    findValidBlock v2Desc wornDev k (blankFlash clock) 6 = (0, blankFlash clock) := by
  rw [findValidBlock, if_pos (show 6 ≥ v2Desc.totalBlks from Nat.le_refl 6)]

/-- The tables after the scan: blocks 0 to 2 mapped to themselves, blocks 3 to 5
in the pool. -/
def v2Mem : Nat → UInt8 :=
  let bb := setBbTbl (setBbTbl (setBbTbl v2Start.tbl.mem 0 0) 1 1) 2 2
  let p₀ := setBmtMark v2Desc (setBmtBlock v2Desc bb 0 3) 0 noMapped
  let p₁ := setBmtMark v2Desc (setBmtBlock v2Desc p₀ 1 4) 1 noMapped
  let p₂ := setBmtMark v2Desc (setBmtBlock v2Desc p₁ 2 5) 2 noMapped
  setBmtMark v2Desc p₂ 2 bmtMapped

theorem scanBadBlocks_v2Start : scanBadBlocks v2Desc wornDev v2Start =
    (true, { flash := blankFlash 5, tbl := { mem := v2Mem, bmtBlkIdx := 2, poolPba := 3 } }) := by
  have hlba : v2Desc.poolLba = 3 := rfl
  have htot : v2Desc.totalBlks = 6 := rfl
  have hflash : v2Start.flash = blankFlash 0 := rfl
  simp [scanBadBlocks, scanData, scanPool, hlba, htot, hflash, findValidBlock_blank,
    findValidBlock_end, bbTbl_setBbTbl, v2Mem]

/-- The first table is stored in slot 2. -/
def v2Stored : Bmtd V2Tbl := uploadAtIdx v2Desc wornDev (scanBadBlocks v2Desc wornDev v2Start).2

/-- The entries of the pool after the scan. -/
theorem v2Mem_pool :
    bmtBlock v2Desc v2Mem 0 = 3 ∧ bmtMark v2Desc v2Mem 0 = noMapped ∧
    bmtMark v2Desc v2Mem 1 = noMapped ∧ bmtMark v2Desc v2Mem 2 = bmtMapped := by
  simp [v2Mem, bmtBlock_setBmtMark, bmtBlock_setBmtBlock, bmtMark_setBmtMark, bmtMark_setBmtBlock,
    noMapped, bmtMapped]

theorem v2Stored_tbl :
    v2Stored.tbl = { mem := signTable v2Mem, bmtBlkIdx := 2, poolPba := 3 } ∧
    v2Stored.flash.clock = 7 := by
  have hmark : bmtMark v2Desc v2Mem 2 ≠ normalMapped := by
    rw [v2Mem_pool.2.2.2]
    decide
  rw [v2Stored, scanBadBlocks_v2Start]
  simp only [uploadAtIdx, uploadBmt, if_neg hmark]
  exact ⟨rfl, rfl⟩

/-- The remap of block 1 takes entry 0; every erase of the store after it fails. -/
def v2Lost : Bmtd V2Tbl := (remapBlockV2 v2Desc wornDev v2Stored 1 1 0).2

def v2LostMem : Nat → UInt8 :=
  setBmtBlock v2Desc (setBmtBlock v2Desc
    (setBbTbl (setBmtMark v2Desc (signTable v2Mem) 0 normalMapped) 1 3) 2 0) 1 0

theorem v2Lost_tbl : v2Lost.tbl = { mem := v2LostMem, bmtBlkIdx := noSlot, poolPba := 3 } := by
  obtain ⟨htbl, hclock⟩ := v2Stored_tbl
  obtain ⟨hblock, hmark₀, hmark₁, hmark₂⟩ := v2Mem_pool
  have hts : 1 < v2Desc.tableSize := by decide
  have hpick : findValidBlockInPool v2Desc v2Stored.tbl =
      (3, { mem := setBmtMark v2Desc (signTable v2Mem) 0 normalMapped, bmtBlkIdx := 2, poolPba := 3 }) := by
    simp [findValidBlockInPool, findInPool, htbl, bmtBlock_signTable, bmtMark_signTable, hblock, hmark₀]
  simp [v2Lost, remapBlockV2, hpick, uploadAtIdx, uploadBmt, hclock, bbtNandErase, lowerErase, wornDev,
    bmtMark_setBbTbl, hts, bmtMark_setBmtMark, bmtMark_setBmtBlock, bmtMark_signTable, hmark₁, hmark₂,
    v2LostMem, noMapped, normalMapped, bmtMapped]

/-- The next remap walks past the end of the pool, to the byte behind it. -/
theorem v2Lost_pick : (findValidBlockInPool v2Desc v2Lost.tbl).1 = 3 := by
  have hts : v2Desc.tableSize = 6 := rfl
  have hrest : bmtBlock v2Desc v2Start.tbl.mem 3 = 0 ∧ bmtBlock v2Desc v2Start.tbl.mem 4 = 0 ∧
      bmtBlock v2Desc v2Start.tbl.mem 5 = 0 ∧ bmtBlock v2Desc v2Start.tbl.mem 6 = 3 ∧
      bmtMark v2Desc v2Start.tbl.mem 6 = 0 := by decide
  simp [v2Lost_tbl, findValidBlockInPool, findInPool, noSlot, v2LostMem, v2Mem, bmtBlock_setBmtBlock,
    bmtMark_setBmtBlock, bmtBlock_setBbTbl, bmtMark_setBbTbl, hts, bmtBlock_setBmtMark,
    bmtMark_setBmtMark, bmtBlock_signTable, bmtMark_signTable, noMapped, normalMapped, hrest]

theorem v2Stored_run {ok : Bmtd V2Tbl → Prop} (h : ok (scanBadBlocks v2Desc wornDev v2Start).2) :
    V2Run v2Desc wornDev ok ((scanBadBlocks v2Desc wornDev v2Start).2.tbl.bmtBlkIdx + 1) [] v2Stored :=
  V2Run.store (V2Run.scan v2Start (by rw [scanBadBlocks_v2Start])) h

/-- After the store that failed, the remap of block 2 is given the block that
block 1 is mapped to. -/
theorem remapBlockV2_not_exclusive :
    ¬ ∀ (d : V2Desc) (dev : LowerDev) (N : Nat) (handed : List Nat) (s : Bmtd V2Tbl),
      V2Run d dev (fun _ => True) N handed s → V2Exclusive d handed s.tbl := by
  intro hall
  have hrun : V2Run v2Desc wornDev (fun _ => True) _ _ v2Lost :=
    V2Run.remap (v2Stored_run trivial) trivial 1 1 0 (by decide)
  have hinj := (hall v2Desc wornDev _ _ _ (V2Run.remap hrun trivial 2 2 0 (by decide))).inj
    1 (by decide) 2 (by decide)
  have hne : (findValidBlockInPool v2Desc v2Lost.tbl).1 ≠ 0 := by rw [v2Lost_pick]; decide
  have hmapped : bbTbl v2LostMem 1 = 3 := by
    unfold v2LostMem
    rw [bbTbl_setBmtBlock _ _ (by decide), bbTbl_setBmtBlock _ _ (by decide), bbTbl_setBbTbl]
    decide
  refine absurd (hinj ?_) (by decide)
  -- block 1 keeps the block of the first remap, block 2 gets the block of the second
  rw [remapBlockV2_bbTbl v2Lost 2 2 0 hne (by decide : 1 < v2Desc.tableSize),
    remapBlockV2_bbTbl v2Lost 2 2 0 hne (by decide : 2 < v2Desc.tableSize), v2Lost_pick, v2Lost_tbl]
  exact hmapped

/-- A run the theorem is about: the step that loses the table is its last. -/
theorem v2Run_exclusive_lost :
    V2Exclusive v2Desc (handedOut v2Desc v2Stored.tbl ++ []) v2Lost.tbl := by
  refine v2Run_exclusive (by decide) (V2Run.remap (v2Stored_run ?_) ?_ 1 1 0 (by decide))
  · rw [scanBadBlocks_v2Start]
    decide
  · rw [v2Stored_tbl.1]
    decide

/-! ## Maintenance -/

/-- The collection freed exactly the entries in use whose block no logical block
is mapped to. -/
structure GcExact (d : V2Desc) (N : Nat) (mem mem' : Nat → UInt8) : Prop where
  freed : ∀ k < N, bmtMark d mem k = normalMapped →
    (∀ i < d.poolLba, bbTbl mem i ≠ bmtBlock d mem k) → bmtMark d mem' k = noMapped
  kept : ∀ k < N, bmtMark d mem k ≠ normalMapped ∨
    (∃ i < d.poolLba, bbTbl mem i = bmtBlock d mem k) → bmtMark d mem' k = bmtMark d mem k

section Maintenance

variable {d : V2Desc} {dev : LowerDev} {N : Nat} {handed : List Nat} {s : Bmtd V2Tbl}

/-- `unmap_block_v2` maps the block to itself, and no other. -/
theorem unmapBlockV2_bbTbl (s : Bmtd V2Tbl) {b i : Nat} (hb : b < 65536) (hi : i < d.tableSize) :
    bbTbl (unmapBlockV2 d dev s b).tbl.mem i = if i = b then b else bbTbl s.tbl.mem i := by
  unfold unmapBlockV2
  rw [(uploadAtIdx_uploaded dev _).bb i hi, bbTbl_setBbTbl, Nat.mod_eq_of_lt hb]

/-- Unmapping `b` keeps the mapping injective exactly when no other block is
mapped to `b`. -/
theorem unmapBlockV2_inj_iff (hts : d.poolLba ≤ d.tableSize) (hinj : BbInj d s.tbl.mem) {b : Nat}
    (hb : b < d.poolLba) :
    BbInj d (unmapBlockV2 d dev s b).tbl.mem ↔
      ∀ b' < d.poolLba, b' ≠ b → bbTbl s.tbl.mem b' ≠ b := by
  have hb16 : b < 65536 := by
    have htot := d.totalBlks_lt
    have hps := d.poolSize_lt
    rw [d.poolLba_eq, d.pmtBlock_eq] at hb
    omega
  have hbb : ∀ i < d.poolLba, bbTbl (unmapBlockV2 d dev s b).tbl.mem i =
      if i = b then b else bbTbl s.tbl.mem i :=
    fun i hi => unmapBlockV2_bbTbl s hb16 (by omega)
  constructor
  · intro h b' hb' hne heq
    refine hne (h b' hb' b hb ?_)
    rw [hbb b' hb', hbb b hb, if_neg hne, if_pos rfl, heq]
  · intro h i hi j hj hij
    rw [hbb i hi, hbb j hj] at hij
    split at hij
    · next hib =>
      split at hij
      · next hjb => rw [hib, hjb]
      · next hjb => exact absurd hij.symm (h j hj hjb)
    · next hib =>
      split at hij
      · exact absurd hij (h i hi hib)
      · exact hinj i hi j hj hij

/-- The loop of the collection, by induction over the entries left. -/
theorem freeUnused_spec (used : Nat → Bool) : ∀ (n i freed : Nat) (mem : Nat → UInt8),
    (∀ j < d.tableSize, bbTbl (freeUnused d used n i freed mem).2 j = bbTbl mem j) ∧
    ∀ k, bmtMark d (freeUnused d used n i freed mem).2 k =
      if i ≤ k ∧ k < i + n ∧ bmtMark d mem k = normalMapped ∧ used k = false then noMapped
      else bmtMark d mem k
  | 0, i, freed, mem => by
      refine ⟨fun _ _ => rfl, fun k => ?_⟩
      rw [if_neg (by omega)]
      rfl
  | n + 1, i, freed, mem => by
      -- a slot that is kept leaves the range to the slots above it
      have hkeep : ∀ k, ¬ (bmtMark d mem i = normalMapped ∧ used i = false) →
          ((i ≤ k ∧ k < i + (n + 1) ∧ bmtMark d mem k = normalMapped ∧ used k = false) ↔
            (i + 1 ≤ k ∧ k < i + 1 + n ∧ bmtMark d mem k = normalMapped ∧ used k = false)) := by
        intro k hno
        constructor
        · rintro ⟨h₁, h₂, h₃⟩
          refine ⟨?_, by omega, h₃⟩
          rcases Nat.lt_or_ge i k with hlt | hge
          · exact hlt
          · obtain rfl : k = i := by omega
            exact absurd h₃ hno
        · rintro ⟨h₁, h₂, h₃⟩
          exact ⟨by omega, by omega, h₃⟩
      rw [freeUnused]
      split
      · next hmark =>
        obtain ⟨hbb, hmk⟩ := freeUnused_spec used n (i + 1) freed mem
        refine ⟨hbb, fun k => ?_⟩
        rw [hmk k]
        simp only [hkeep k fun h => hmark h.1]
      · next hmark =>
        split
        · next hused =>
          obtain ⟨hbb, hmk⟩ := freeUnused_spec used n (i + 1) freed mem
          refine ⟨hbb, fun k => ?_⟩
          rw [hmk k]
          simp only [hkeep k fun h => by simp [h.2] at hused]
        · next hused =>
          obtain ⟨hbb, hmk⟩ := freeUnused_spec used n (i + 1) (freed + 1) (setBmtMark d mem i noMapped)
          refine ⟨fun j hj => by rw [hbb j hj, bbTbl_setBmtMark d mem hj], fun k => ?_⟩
          rw [hmk k, bmtMark_setBmtMark]
          by_cases hk : k = i
          · subst hk
            rw [if_neg (by omega), if_pos rfl, if_pos ⟨Nat.le_refl _, by omega,
              Decidable.not_not.mp hmark, Bool.eq_false_iff.mpr hused⟩]
            rfl
          · rw [if_neg hk]
            congr 1
            apply propext
            constructor
            · rintro ⟨h₁, h₂, h₃⟩
              exact ⟨by omega, by omega, h₃⟩
            · rintro ⟨h₁, h₂, h₃⟩
              exact ⟨by omega, by omega, h₃⟩

/-- The first slot that holds a block. -/
theorem maskSlot_spec (mem : Nat → UInt8) (block : Nat) : ∀ (n k : Nat) {r : Nat},
    maskSlot d mem block n k = some r → bmtBlock d mem r = block ∧ r < k + n
  | 0, _, _, h => by simp [maskSlot] at h
  | n + 1, k, r, h => by
      rw [maskSlot] at h
      split at h
      · next heq =>
        obtain rfl := Option.some.inj h
        exact ⟨heq.symm, by omega⟩
      · obtain ⟨h₁, h₂⟩ := maskSlot_spec mem block n (k + 1) h
        exact ⟨h₁, by omega⟩

theorem maskSlot_isSome (mem : Nat → UInt8) (block : Nat) : ∀ (n k : Nat) {r : Nat},
    k ≤ r → r < k + n → bmtBlock d mem r = block → (maskSlot d mem block n k).isSome = true
  | 0, _, _, h₁, h₂, _ => absurd h₂ (by omega)
  | n + 1, k, r, h₁, h₂, h₃ => by
      rw [maskSlot]
      split
      · rfl
      · next hne =>
        have hrk : r ≠ k := by
          rintro rfl
          exact hne h₃.symm
        exact maskSlot_isSome mem block n (k + 1) (by omega) (by omega) h₃

/-- The mask, for an entry in use: some block of `1 .. pmt_block - 1` is mapped
there. -/
theorem mtkBmtGetMappingMask_iff (h : V2Inv d N handed s.tbl) (hidx : s.tbl.bmtBlkIdx ≠ noSlot)
    {k : Nat} (hk : k < N) (hmark : bmtMark d s.tbl.mem k = normalMapped) :
    mtkBmtGetMappingMask d s.tbl k = true ↔
      ∃ i, 1 ≤ i ∧ i < d.pmtBlock ∧ bbTbl s.tbl.mem i = bmtBlock d s.tbl.mem k := by
  obtain ⟨hN, hnz⟩ := h.slot hidx
  have hlt := h.normal_lt k hk hmark
  have hk0 := hnz k (by omega)
  have hge := h.pool_ge k hk hk0
  have hpmt : d.poolLba = d.pmtBlock + 2 := d.poolLba_eq
  unfold mtkBmtGetMappingMask
  rw [List.any_eq_true]
  constructor
  · rintro ⟨i, hi, hb⟩
    rw [List.mem_range'_1] at hi
    rw [Bool.and_eq_true, beq_iff_eq] at hb
    obtain ⟨hbk, -⟩ := maskSlot_spec s.tbl.mem _ _ _ hb.2
    exact ⟨i, by omega, by omega, hbk.symm⟩
  · rintro ⟨i, h₁, h₂, hb⟩
    refine ⟨i, List.mem_range'_1.mpr ⟨h₁, by omega⟩, ?_⟩
    rw [Bool.and_eq_true, bne_iff_ne, beq_iff_eq]
    refine ⟨by omega, ?_⟩
    obtain ⟨r, hr⟩ := Option.isSome_iff_exists.mp
      (maskSlot_isSome (d := d) s.tbl.mem (bbTbl s.tbl.mem i) s.tbl.bmtBlkIdx 0 (r := k) (Nat.zero_le _)
        (by omega) hb.symm)
    obtain ⟨hrb, hrlt⟩ := maskSlot_spec s.tbl.mem _ _ _ hr
    have hrk := h.pool_inj k hk r (by omega) hk0 (by rw [hrb, hb])
    rw [hr, hrk]

/-- The collection, as a whole: `bb_tbl` is not touched, and an entry in use is
freed when its bit of the mask is clear. -/
theorem mtkBmtDebugV2Gc_spec (s : Bmtd V2Tbl) :
    (∀ j < d.tableSize, bbTbl (mtkBmtDebugV2Gc d dev s).tbl.mem j = bbTbl s.tbl.mem j) ∧
    ∀ k, bmtMark d (mtkBmtDebugV2Gc d dev s).tbl.mem k =
      if k ≤ s.tbl.bmtBlkIdx ∧ bmtMark d s.tbl.mem k = normalMapped ∧
        mtkBmtGetMappingMask d s.tbl k = false then noMapped
      else bmtMark d s.tbl.mem k := by
  obtain ⟨hbb, hmk⟩ := freeUnused_spec (d := d) (mtkBmtGetMappingMask d s.tbl)
    (s.tbl.bmtBlkIdx + 1) 0 0 s.tbl.mem
  have hmk' : ∀ k, bmtMark d (freeUnused d (mtkBmtGetMappingMask d s.tbl) (s.tbl.bmtBlkIdx + 1)
      0 0 s.tbl.mem).2 k = if k ≤ s.tbl.bmtBlkIdx ∧ bmtMark d s.tbl.mem k = normalMapped ∧
        mtkBmtGetMappingMask d s.tbl k = false then noMapped else bmtMark d s.tbl.mem k := by
    intro k
    rw [hmk k]
    simp only [Nat.zero_le, true_and, Nat.zero_add, Nat.lt_succ_iff]
  unfold mtkBmtDebugV2Gc
  dsimp only
  split
  · have hu := uploadAtIdx_uploaded (d := d) dev { s with tbl := { s.tbl with
      mem := (freeUnused d (mtkBmtGetMappingMask d s.tbl) (s.tbl.bmtBlkIdx + 1) 0 0 s.tbl.mem).2 } }
    exact ⟨fun j hj => (hu.bb j hj).trans (hbb j hj), fun k => (hu.mark k).trans (hmk' k)⟩
  · exact ⟨hbb, hmk'⟩

/-- The collection is exact when no block outside `1 .. pmt_block - 1` is mapped
into the pool. -/
theorem gcExact_iff (h : V2Inv d N handed s.tbl) (hidx : s.tbl.bmtBlkIdx ≠ noSlot) :
    GcExact d N s.tbl.mem (mtkBmtDebugV2Gc d dev s).tbl.mem ↔
      ∀ k < N, bmtMark d s.tbl.mem k = normalMapped → ∀ i < d.poolLba,
        bbTbl s.tbl.mem i = bmtBlock d s.tbl.mem k → 1 ≤ i ∧ i < d.pmtBlock := by
  obtain ⟨-, hmk⟩ := @mtkBmtDebugV2Gc_spec d dev s
  have hpmt : d.poolLba = d.pmtBlock + 2 := d.poolLba_eq
  constructor
  · intro hgc k hk hmark i hi hik
    have hkept := hgc.kept k hk (Or.inr ⟨i, hi, hik⟩)
    have hlt := h.normal_lt k hk hmark
    -- the entry was kept, so its bit was set, and by injectivity by this block
    have hused : mtkBmtGetMappingMask d s.tbl k = true := by
      by_contra hno
      rw [hmk k, if_pos ⟨by omega, hmark, Bool.eq_false_iff.mpr hno⟩, hmark] at hkept
      exact absurd hkept (by decide)
    obtain ⟨i', h₁, h₂, hik'⟩ := (mtkBmtGetMappingMask_iff h hidx hk hmark).mp hused
    obtain rfl := h.bb_inj i hi i' (by omega) (by rw [hik, hik'])
    exact ⟨h₁, h₂⟩
  · intro hcond
    constructor
    · intro k hk hmark hnone
      have hlt := h.normal_lt k hk hmark
      have hclear : mtkBmtGetMappingMask d s.tbl k = false := by
        rw [Bool.eq_false_iff]
        intro hused
        obtain ⟨i, -, h₂, hik⟩ := (mtkBmtGetMappingMask_iff h hidx hk hmark).mp hused
        exact hnone i (by omega) hik
      rw [hmk k, if_pos ⟨by omega, hmark, hclear⟩]
    · intro k hk hcase
      rw [hmk k, if_neg]
      rintro ⟨-, hmark, hclear⟩
      rcases hcase with hne | ⟨i, hi, hik⟩
      · exact hne hmark
      · obtain ⟨h₁, h₂⟩ := hcond k hk hmark i hi hik
        have hused := (mtkBmtGetMappingMask_iff h hidx hk hmark).mpr ⟨i, h₁, h₂, hik⟩
        rw [hclear] at hused
        exact Bool.false_ne_true hused

/-- The maintenance entries, from every state of a run: unmapping a block keeps
the mapping injective exactly when no other block is mapped to its number; the
collection always does; and the collection is exact exactly when no entry in
use belongs to block 0 or to one of the two PMT blocks. -/
theorem maintenance_iff (hts : d.poolLba ≤ d.tableSize)
    (hrun : V2Run d dev (fun s => s.tbl.bmtBlkIdx ≠ noSlot) N handed s)
    (hidx : s.tbl.bmtBlkIdx ≠ noSlot) {b : Nat} (hb : b < d.poolLba) :
    (BbInj d (unmapBlockV2 d dev s b).tbl.mem ↔
      ∀ b' < d.poolLba, b' ≠ b → bbTbl s.tbl.mem b' ≠ b) ∧
    BbInj d (mtkBmtDebugV2Gc d dev s).tbl.mem ∧
    (GcExact d N s.tbl.mem (mtkBmtDebugV2Gc d dev s).tbl.mem ↔
      ∀ k < N, bmtMark d s.tbl.mem k = normalMapped → ∀ i < d.poolLba,
        bbTbl s.tbl.mem i = bmtBlock d s.tbl.mem k → 1 ≤ i ∧ i < d.pmtBlock) := by
  have hinv := hrun.inv hts
  refine ⟨unmapBlockV2_inj_iff hts hinv.bb_inj hb, ?_, gcExact_iff hinv hidx⟩
  obtain ⟨hbb, -⟩ := @mtkBmtDebugV2Gc_spec d dev s
  intro i hi j hj hij
  rw [hbb i (by omega), hbb j (by omega)] at hij
  exact hinv.bb_inj i hi j hj hij

end Maintenance

/-- An application at the state after the first store. -/
theorem maintenance_stored :
    (BbInj v2Desc (unmapBlockV2 v2Desc wornDev v2Stored 1).tbl.mem ↔
      ∀ b' < v2Desc.poolLba, b' ≠ 1 → bbTbl v2Stored.tbl.mem b' ≠ 1) ∧
    BbInj v2Desc (mtkBmtDebugV2Gc v2Desc wornDev v2Stored).tbl.mem := by
  have hidx : v2Stored.tbl.bmtBlkIdx ≠ noSlot := by
    rw [v2Stored_tbl.1]
    decide
  have hrun : V2Run v2Desc wornDev (fun s => s.tbl.bmtBlkIdx ≠ noSlot) _ [] v2Stored :=
    v2Stored_run (by rw [scanBadBlocks_v2Start]; decide)
  obtain ⟨hunmap, hgc, -⟩ := maintenance_iff (b := 1) (by decide) hrun hidx (by decide)
  exact ⟨hunmap, hgc⟩

/-! ### A chip with a factory-bad block -/

/-- Fifty blocks, five of them data and PMT, the others in the pool. -/
def shiftDesc : V2Desc where
  blkShift := 17
  pgShift := 11
  totalBlks := 50
  pgShift_le := pages2K_le
  totalBlks_lt := by decide
  remapRange := []
  disjoint := List.Pairwise.nil
  bmtPgs := 1
  oobOffset := 0
  size_le := by decide
  tableSize := 50
  poolSize := 45
  totalBlks_pos := by decide
  poolSize_lt := by decide
  bmtPgs_eq := by decide

/-- Blocks 2, 10 and 11 carry a bad-block mark. Two in a row end the scan of the
pool, so that its entries are the blocks 6 to 9. -/
def shiftFlash (clock : Nat) : Flash where
  page := fun p => if p / 64 = 2 ∨ p / 64 = 10 ∨ p / 64 = 11 then ⟨[], [0]⟩ else shiftDesc.erasedPage
  log := []
  clock := clock

def shiftDev : LowerDev := LowerDev.perfect shiftDesc.toGeometry

def shiftStart : Bmtd V2Tbl where
  flash := shiftFlash 0
  tbl := { mem := fun _ => 0, bmtBlkIdx := 0, poolPba := 0 }

/-- A good block is taken as it is. -/
theorem findValidBlock_shift_good (clock : Nat) {block : Nat} (h : block < 10) (hne : block ≠ 2) :
    findValidBlock shiftDesc shiftDev 1 (shiftFlash clock) block = (block, shiftFlash (clock + 1)) := by
  have hdiv : shiftDesc.blkPg block / 64 = block := Nat.mul_div_cancel block (by decide)
  have hgood : fdmGood shiftDesc (.ok 0) ((shiftFlash clock).page (shiftDesc.blkPg block)) = true := by
    simp only [shiftFlash, hdiv]
    rw [if_neg (by omega)]
    rfl
  have hlt : ¬ block ≥ shiftDesc.totalBlks := by
    show ¬ block ≥ 50
    omega
  rw [findValidBlock, if_neg hlt]
  exact if_pos hgood

theorem findValidBlock_shift_skip (clock : Nat) :
    findValidBlock shiftDesc shiftDev 1 (shiftFlash clock) 2 = (3, shiftFlash (clock + 2)) := rfl

theorem findValidBlock_shift_end (clock : Nat) :
    findValidBlock shiftDesc shiftDev 1 (shiftFlash clock) 10 = (0, shiftFlash (clock + 2)) := rfl

/-- The scan succeeds; blocks 2 and 3 are mapped to blocks 3 and 4. -/
theorem scanBadBlocks_shift :
    (scanBadBlocks shiftDesc shiftDev shiftStart).1 = true ∧
    bbTbl (scanBadBlocks shiftDesc shiftDev shiftStart).2.tbl.mem 2 = 3 := by
  have hlba : shiftDesc.poolLba = 5 := rfl
  have htot : shiftDesc.totalBlks = 50 := rfl
  have hbb : shiftDesc.bbMax = 1 := rfl
  have hts : shiftDesc.tableSize = 50 := rfl
  have hflash : shiftStart.flash = shiftFlash 0 := rfl
  simp [scanBadBlocks, scanData, scanPool, hlba, htot, hbb, hts, hflash, findValidBlock_shift_good,
    findValidBlock_shift_skip, findValidBlock_shift_end, bbTbl_setBbTbl, bbTbl_setBmtMark,
    bbTbl_setBmtBlock]

/-- Unmapping block 3 right after the scan maps it to the block of block 2. -/
theorem unmapBlockV2_not_inj :
    ¬ ∀ (d : V2Desc) (dev : LowerDev) (N : Nat) (handed : List Nat) (s : Bmtd V2Tbl) (b : Nat),
      V2Run d dev (fun s => s.tbl.bmtBlkIdx ≠ noSlot) N handed s → b < d.poolLba →
      BbInj d (unmapBlockV2 d dev s b).tbl.mem := by
  intro hall
  obtain ⟨hok, hbb⟩ := scanBadBlocks_shift
  have hinj := hall shiftDesc shiftDev _ _ _ 3 (V2Run.scan shiftStart hok) (by decide)
    2 (by decide) 3 (by decide)
  refine absurd (hinj ?_) (by decide)
  rw [unmapBlockV2_bbTbl _ (by decide) (by decide), unmapBlockV2_bbTbl _ (by decide) (by decide),
    if_neg (by decide), if_pos rfl, hbb]

end Lede.Bmt
