/-
Lede.Bmt.Core — the helpers every back end of `mtk_bmt.c` shares: the NAND
operation wrappers of `mtk_bmt.h`, `bbt_nand_copy`, `write_bmt` and
`mapping_block_in_range`.

The driver keeps everything in the global `bmtd`. Here the constant part
(geometry, remap ranges, layout of the table block) is `BmtDesc`, and the part
that changes is `Bmtd τ`: the chip and the tables `τ` of one back end.

Byte addresses are kept in block and page numbers. `mapping_block_in_range`
compares byte addresses and returns byte addresses; with the block-aligned
ranges of `RemapRange` the comparison is one of block numbers, and the byte
addresses are what `get_mapping_block_index_bbt` shifts back.
-/
import Lede.Nand.Flash

namespace Lede.Bmt

open Lede.Nand

/-! ## The descriptor -/

/-- One entry of `mediatek,bmt-remap-range`: the byte range `[lo, hi)`. Every
device tree that sets the property gives erase-block boundaries inside the
chip. -/
structure RemapRange (g : Geometry) where
  lo : Nat
  hi : Nat
  lo_dvd : g.blkSize ∣ lo
  hi_dvd : g.blkSize ∣ hi
  lo_lt_hi : lo < hi
  hi_le : hi ≤ g.totalBlks * g.blkSize

/-- The part of `struct bmt_desc` that is fixed once the layer is attached.
`remapRange` is empty when the property is absent (`remap_range_len` is 0);
the ranges of a device tree do not overlap. The driver keeps byte addresses in
an `int`, so chips end at 2 GiB. -/
structure BmtDesc extends Geometry where
  remapRange : List (RemapRange toGeometry)
  disjoint : remapRange.Pairwise fun r r' => r.hi ≤ r'.lo ∨ r'.hi ≤ r.lo
  /-- `bmtd.bmt_pgs`: pages of the stored table. -/
  bmtPgs : Nat
  /-- `bmtd.oob_offset`. -/
  oobOffset : Nat
  size_le : totalBlks * 2 ^ blkShift ≤ 2 ^ 31

/-! 1024 blocks of 128 KiB with pages of 2 KiB, as most chips have. -/

theorem pages2K_le : 11 ≤ 17 := by decide

theorem blks1024_lt : 1024 < 65536 := by decide

theorem chip128M_le : 1024 * 2 ^ 17 ≤ 2 ^ 31 := by decide

/-- The part that changes: the chip, and the tables of the back end. -/
structure Bmtd (τ : Type) where
  flash : Flash
  tbl : τ

/-! ## Pages in a row -/

/-- `_write_oob` over consecutive pages stops at the first page that fails. -/
def lowerWritePages (dev : LowerDev) : Flash → Nat → List Page → Bool × Flash
  | fl, _, [] => (true, fl)
  | fl, pg, c :: cs =>
    let (ok, fl) := lowerWrite dev fl pg c
    if ok then lowerWritePages dev fl (pg + 1) cs else (false, fl)

/-- `bbt_nand_read`: a negative return value, `-EUCLEAN` included, is an error. -/
def bbtNandRead (dev : LowerDev) : Flash → Nat → Nat → Option (List Page) × Flash
  | fl, _, 0 => (some [], fl)
  | fl, pg, n + 1 =>
    let (ret, c, fl) := lowerRead dev fl pg
    match ret with
    | .ok _ =>
      let (rest, fl) := bbtNandRead dev fl (pg + 1) n
      (rest.map (c :: ·), fl)
    | _ => (none, fl)

/-! ## Wrappers of `mtk_bmt.h` -/

section Wrappers

variable (d : BmtDesc) (dev : LowerDev)

/-- `bbt_nand_erase`. -/
def bbtNandErase (fl : Flash) (block : Nat) : Bool × Flash :=
  lowerErase d.toGeometry dev fl block

/-- The page images `write_bmt` programs: `bmt_pgs` pages of `dat`, the
signature in the out-of-band bytes of the first. -/
def bmtPages (sig : List UInt8) (dat : Nat → UInt8) : List Page :=
  (List.range d.bmtPgs).map fun j =>
    { data := (List.range d.pgSize).map fun i => dat (j * d.pgSize + i)
      oob := if j = 0 then List.replicate (1 + d.oobOffset) 0xff ++ sig else [] }

/-- `write_bmt`; `true` stands for the return value 0. -/
def writeBmt (sig : List UInt8) (fl : Flash) (block : Nat) (dat : Nat → UInt8) : Bool × Flash :=
  lowerWritePages dev fl (d.blkPg block) (bmtPages d sig dat)

/-- The page loop of `bbt_nand_copy`, with `n` pages of the block left to
look at and `i` done. A page that cannot be read, or not be programmed, ends
the copy. -/
def bbtNandCopyLoop (dest src maxOffset : Nat) : Nat → Nat → Flash → Bool × Flash
  | 0, _, fl => (true, fl)
  | n + 1, i, fl =>
    if i * d.pgSize ≥ maxOffset then (true, fl)
    else
      let (ret, c, fl) := lowerRead dev fl (d.blkPg src + i)
      if ret.failed then (false, fl)
      else
        let (ok, fl) := lowerWrite dev fl (d.blkPg dest + i) { data := c.data, oob := [] }
        if ok then bbtNandCopyLoop dest src maxOffset n (i + 1) fl else (false, fl)

/-- `bbt_nand_copy`. -/
def bbtNandCopy (fl : Flash) (dest src maxOffset : Nat) : Bool × Flash :=
  bbtNandCopyLoop d dev dest src maxOffset d.ppb 0 fl

/-- `mapping_block_in_range`: `start` and `end` as the function returns them,
block counts when no range is configured and byte addresses otherwise. -/
def mappingBlockInRange (block : Nat) : Option (Nat × Nat) :=
  if d.remapRange.isEmpty then some (0, d.totalBlks)
  else
    (d.remapRange.find? fun r =>
      decide (r.lo ≤ block * d.blkSize ∧ block * d.blkSize < r.hi)).map fun r => (r.lo, r.hi)

end Wrappers

/-! ## Frames of the helpers -/

section Frames

variable {d : BmtDesc} (dev : LowerDev)

/-- Programming pages in a row touches the blocks these pages are in. -/
theorem lowerWritePages_touches {g : Geometry} {A : Set Nat} : ∀ (cs : List Page) (fl : Flash) (pg : Nat),
    (∀ q, pg ≤ q → q < pg + cs.length → q / g.ppb ∈ A) →
    Flash.Touches g A fl (lowerWritePages dev fl pg cs).2
  | [], fl, _, _ => Flash.Touches.refl fl
  | c :: cs, fl, pg, hA => by
      have hstep : Flash.Touches g A fl (lowerWrite dev fl pg c).2 :=
        lowerWrite_touches dev fl c (hA pg (Nat.le_refl _) (by simp))
      rw [lowerWritePages]
      cases hok : (lowerWrite dev fl pg c).1 with
      | false => simpa [hok] using hstep
      | true =>
        simp only [hok, if_true]
        refine hstep.trans (lowerWritePages_touches cs _ (pg + 1) fun q h₁ h₂ => hA q (by omega) ?_)
        simp only [List.length_cons]
        omega

/-- A read changes neither pages nor log. -/
theorem bbtNandRead_flash : ∀ (n : Nat) (fl : Flash) (pg : Nat),
    (bbtNandRead dev fl pg n).2.page = fl.page ∧ (bbtNandRead dev fl pg n).2.log = fl.log
  | 0, _, _ => ⟨rfl, rfl⟩
  | n + 1, fl, pg => by
      rw [bbtNandRead]
      cases hr : (lowerRead dev fl pg).1 with
      | ok b =>
        have ih := bbtNandRead_flash n (lowerRead dev fl pg).2.2 (pg + 1)
        simp only [hr]
        exact ⟨ih.1.trans rfl, ih.2.trans rfl⟩
      | euclean => simp [hr]
      | ebadmsg => simp [hr]
      | eio => simp [hr]

theorem bbtNandErase_touches {A : Set Nat} (fl : Flash) {block : Nat} (hA : block ∈ A) :
    Flash.Touches d.toGeometry A fl (bbtNandErase d dev fl block).2 :=
  lowerErase_touches dev fl hA

theorem bmtPages_length (sig : List UInt8) (dat : Nat → UInt8) :
    (bmtPages d sig dat).length = d.bmtPgs := by
  simp [bmtPages]

/-- The blocks a table stored at `block` lies in. -/
def tableBlocks (d : BmtDesc) (block : Nat) : Set Nat :=
  {b | b = block ∨ ∃ q, d.blkPg block ≤ q ∧ q < d.blkPg block + d.bmtPgs ∧ q / d.ppb = b}

theorem mem_tableBlocks_self (block : Nat) : block ∈ tableBlocks d block := Or.inl rfl

theorem writeBmt_touches {A : Set Nat} (sig : List UInt8) (fl : Flash) (block : Nat)
    (dat : Nat → UInt8) (hA : tableBlocks d block ⊆ A) :
    Flash.Touches d.toGeometry A fl (writeBmt d dev sig fl block dat).2 := by
  refine lowerWritePages_touches dev _ fl _ fun q h₁ h₂ => hA (Or.inr ⟨q, h₁, ?_, rfl⟩)
  rwa [bmtPages_length] at h₂

/-- The copy only programs the destination block. -/
theorem bbtNandCopyLoop_touches {A : Set Nat} {dest src maxOffset : Nat} (hA : dest ∈ A) :
    ∀ (n i : Nat) (fl : Flash), i + n ≤ d.ppb →
      Flash.Touches d.toGeometry A fl (bbtNandCopyLoop d dev dest src maxOffset n i fl).2
  | 0, _, fl, _ => Flash.Touches.refl fl
  | n + 1, i, fl, hi => by
      rw [bbtNandCopyLoop]
      split
      · exact Flash.Touches.refl fl
      · have hread := lowerRead_touches (g := d.toGeometry) (A := A) dev fl (d.blkPg src + i)
        dsimp only
        split
        · exact hread
        · have hpg : (d.blkPg dest + i) / d.ppb ∈ A := by
            rw [d.blkPg_add_div dest (by omega)]
            exact hA
          have hwrite := hread.trans (lowerWrite_touches dev (lowerRead dev fl (d.blkPg src + i)).2.2
            { data := (lowerRead dev fl (d.blkPg src + i)).2.1.data, oob := [] } hpg)
          split
          · exact hwrite.trans (bbtNandCopyLoop_touches hA n (i + 1) _ (by omega))
          · exact hwrite

theorem bbtNandCopy_touches {A : Set Nat} (fl : Flash) {dest : Nat} (src maxOffset : Nat)
    (hA : dest ∈ A) :
    Flash.Touches d.toGeometry A fl (bbtNandCopy d dev fl dest src maxOffset).2 :=
  bbtNandCopyLoop_touches dev hA d.ppb 0 fl (by omega)

end Frames

/-! ## Reading back -/

section ReadBack

variable {dev : LowerDev}

/-- The pages of `n` page numbers in a row. -/
def pagesFrom (fl : Flash) (pg n : Nat) : List Page := (List.range n).map fun j => fl.page (pg + j)

theorem pagesFrom_succ (fl : Flash) (pg n : Nat) :
    pagesFrom fl pg (n + 1) = fl.page pg :: pagesFrom fl (pg + 1) n := by
  unfold pagesFrom
  rw [List.range_succ_eq_map, List.map_cons, List.map_map]
  refine congrArg₂ _ rfl (List.map_congr_left fun j _ => ?_)
  show fl.page (pg + (j + 1)) = fl.page (pg + 1 + j)
  rw [Nat.add_assoc, Nat.add_comm 1 j]

/-- When every read succeeds, `bbt_nand_read` delivers the pages as they are. -/
theorem bbtNandRead_of_readsOk (hread : dev.ReadsOk) : ∀ (n : Nat) (fl : Flash) (pg : Nat),
    (bbtNandRead dev fl pg n).1 = some (pagesFrom fl pg n)
  | 0, _, _ => rfl
  | n + 1, fl, pg => by
      obtain ⟨b, hb⟩ := hread fl.clock pg
      have ih := bbtNandRead_of_readsOk hread n (lowerRead dev fl pg).2.2 (pg + 1)
      rw [bbtNandRead, pagesFrom_succ]
      simp only [lowerRead, hb] at ih ⊢
      rw [ih]
      rfl

/-- Programming pages in a row leaves the pages before them alone. -/
theorem lowerWritePages_page_lt : ∀ (cs : List Page) (fl : Flash) (pg : Nat) {q : Nat}, q < pg →
    (lowerWritePages dev fl pg cs).2.page q = fl.page q
  | [], _, _, _, _ => rfl
  | c :: cs, fl, pg, q, hq => by
      have hstep : (lowerWrite dev fl pg c).2.page q = fl.page q := by
        simp [lowerWrite, Nat.ne_of_lt hq]
      rw [lowerWritePages]
      cases hok : (lowerWrite dev fl pg c).1 with
      | false => simpa [hok] using hstep
      | true =>
        simp only [hok, if_true]
        rw [lowerWritePages_page_lt cs _ (pg + 1) (by omega), hstep]

/-- On an honest chip pages programmed with success hold what they were given. -/
theorem lowerWritePages_stored {g : Geometry} (hdev : dev.Honest g) :
    ∀ (cs : List Page) (fl : Flash) (pg : Nat), (lowerWritePages dev fl pg cs).1 = true →
      pagesFrom (lowerWritePages dev fl pg cs).2 pg cs.length = cs
  | [], _, _, _ => rfl
  | c :: cs, fl, pg, hok => by
      rw [lowerWritePages] at hok ⊢
      cases hw : (lowerWrite dev fl pg c).1 with
      | false => simp [hw] at hok
      | true =>
        simp only [hw, if_true] at hok ⊢
        have hpage : (lowerWrite dev fl pg c).2.page pg = c := by
          simp only [lowerWrite, if_true]
          exact hdev.stored_of_ok _ _ _ _ hw
        rw [List.length_cons, pagesFrom_succ, lowerWritePages_stored hdev cs _ (pg + 1) hok,
          lowerWritePages_page_lt cs _ (pg + 1) (Nat.lt_succ_self pg), hpage]

end ReadBack

/-! ## On a chip that smears every page it is asked to change

Used to show that a page is really changed: whatever touches it once leaves
`c` there for good. -/

section Smear

variable {d : BmtDesc} {c : Page}

theorem lowerWrite_smear {fl : Flash} {pg q : Nat} (content : Page)
    (h : q = pg ∨ fl.page q = c) : (lowerWrite (.smear c) fl pg content).2.page q = c := by
  by_cases hq : q = pg
  · simp [lowerWrite, LowerDev.smear, hq]
  · simpa [lowerWrite, hq] using h.resolve_left hq

theorem lowerWritePages_smear : ∀ (cs : List Page) (fl : Flash) (pg q : Nat),
    (pg ≤ q ∧ q < pg + cs.length) ∨ fl.page q = c →
    (lowerWritePages (.smear c) fl pg cs).2.page q = c
  | [], fl, pg, q, h => by
      rcases h with h | h
      · simp only [List.length_nil] at h
        omega
      · exact h
  | e :: cs, fl, pg, q, h => by
      rw [lowerWritePages]
      show (lowerWritePages (.smear c) (lowerWrite (.smear c) fl pg e).2 (pg + 1) cs).2.page q = c
      apply lowerWritePages_smear cs
      simp only [List.length_cons] at h
      by_cases hq : q = pg
      · exact Or.inr (lowerWrite_smear e (Or.inl hq))
      · rcases h with h | h
        · exact Or.inl (by omega)
        · exact Or.inr (lowerWrite_smear e (Or.inr h))

theorem bbtNandErase_smear {fl : Flash} {block q : Nat} (h : q / d.ppb = block ∨ fl.page q = c) :
    (bbtNandErase d (.smear c) fl block).2.page q = c := by
  by_cases hq : q / d.ppb = block
  · simp [bbtNandErase, lowerErase, LowerDev.smear, hq]
  · simpa [bbtNandErase, lowerErase, hq] using h.resolve_left hq

/-- A table stored at `block` leaves its mark on every block it lies in. -/
theorem store_smear (sig : List UInt8) (fl : Flash) {block x : Nat} (dat : Nat → UInt8)
    (hx : x ∈ tableBlocks d block) :
    ∃ j < d.ppb,
      (writeBmt d (.smear c) sig (bbtNandErase d (.smear c) fl block).2 block dat).2.page
        (d.blkPg x + j) = c := by
  rcases hx with rfl | ⟨q, h₁, h₂, rfl⟩
  · refine ⟨0, d.ppb_pos, lowerWritePages_smear _ _ _ _ (Or.inr (bbtNandErase_smear (Or.inl ?_)))⟩
    exact d.blkPg_add_div x d.ppb_pos
  · refine ⟨q % d.ppb, Nat.mod_lt _ d.ppb_pos, lowerWritePages_smear _ _ _ _ (Or.inl ?_)⟩
    have hq : d.blkPg (q / d.ppb) + q % d.ppb = q := by
      rw [Geometry.blkPg, Nat.mul_comm, Nat.div_add_mod]
    rw [bmtPages_length, hq]
    exact ⟨h₁, h₂⟩

theorem bbtNandCopyLoop_smear {dest src maxOffset q : Nat} : ∀ (n i : Nat) (fl : Flash),
    fl.page q = c →
    (bbtNandCopyLoop d (.smear c) dest src maxOffset n i fl).2.page q = c
  | 0, _, _, h => h
  | n + 1, i, fl, h => by
      rw [bbtNandCopyLoop]
      split
      · exact h
      · exact bbtNandCopyLoop_smear n (i + 1) _ (lowerWrite_smear _ (Or.inr h))

end Smear

end Lede.Bmt
