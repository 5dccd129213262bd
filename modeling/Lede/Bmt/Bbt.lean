/-
Lede.Bmt.Bbt — the `mediatek,bbt` back end of `mtk_bmt_bbt.c`.

The only table of this back end is a bitmap of bad blocks, two bits a block.
There is no mapping table: `get_mapping_block_index_bbt` computes the physical
block of a logical block from the whole bitmap, as the n-th good block of the
remap range, and sends the logical blocks that overflow the good ones to the
bad ones.
-/
import Lede.Bmt.Core

namespace Lede.Bmt

open Lede.Nand

/-- The tables of the back end: `bmtd.bbt_buf` and `bmtd.bmt_blk_idx`, the
block the bitmap is stored in. -/
structure BbtTbl where
  bbtBuf : Nat → UInt8
  bmtBlkIdx : Nat

/-- `mtk_bmt_bbt_ops.sig`, "mtknand". -/
def bbtSig : List UInt8 := [0x6d, 0x74, 0x6b, 0x6e, 0x61, 0x6e, 0x64]

/-- The two bits of a block in its bitmap byte. -/
def bbtMask (block : Nat) : UInt8 := 3 <<< UInt8.ofNat (block % 4 * 2)

/-- `bbt_block_is_bad`. -/
def bbtBlockIsBad (buf : Nat → UInt8) (block : Nat) : Bool :=
  buf (block / 4) &&& bbtMask block != 0

/-- The bitmap half of `bbt_set_block_state`. -/
def bbtSetBits (buf : Nat → UInt8) (block : Nat) (bad : Bool) : Nat → UInt8 := fun i =>
  if i = block / 4 then
    if bad then buf i ||| bbtMask block else buf i &&& ~~~ bbtMask block
  else buf i

section

variable (d : BmtDesc) (dev : LowerDev)

/-- `bbt_set_block_state`: change the bitmap and store it again. -/
def bbtSetBlockState (s : Bmtd BbtTbl) (block : Nat) (bad : Bool) : Bmtd BbtTbl :=
  let tbl := { s.tbl with bbtBuf := bbtSetBits s.tbl.bbtBuf block bad }
  let (_, fl) := bbtNandErase d dev s.flash tbl.bmtBlkIdx
  let (_, fl) := writeBmt d dev bbtSig fl tbl.bmtBlkIdx tbl.bbtBuf
  { flash := fl, tbl := tbl }

/-- The first loop of `get_mapping_block_index_bbt`, with `n` blocks left:
the final `i`, `ofs` and `bad_blocks`. -/
def bbtSkipLoop (buf : Nat → UInt8) : Nat → Nat → Nat → Nat → Nat × Nat × Nat
  | 0, i, ofs, bad => (i, ofs, bad)
  | n + 1, i, ofs, bad =>
    if bbtBlockIsBad buf i then bbtSkipLoop buf n (i + 1) ofs (bad + 1)
    else if ofs ≠ 0 then bbtSkipLoop buf n (i + 1) (ofs - 1) bad
    else (i, ofs, bad)

/-- The second loop, `i` counting down from the end of the range. -/
def bbtOverflowLoop (buf : Nat → UInt8) (ofs : Nat) : Nat → Nat → Option Nat
  | 0, _ => none
  | i + 1, bad =>
    if bad = 0 then none
    else if bbtBlockIsBad buf i then
      if bad - 1 ≤ ofs then some i else bbtOverflowLoop buf ofs i (bad - 1)
    else bbtOverflowLoop buf ofs i bad

/-- `get_mapping_block_index_bbt`. -/
def getMappingBlockIndexBbt (buf : Nat → UInt8) (block : Nat) : Nat :=
  match mappingBlockInRange d block with
  | none => block
  | some (start, stop) =>
    let start := start >>> d.blkShift
    let stop := stop >>> d.blkShift
    let (i, ofs, bad) := bbtSkipLoop buf (stop - start) start (block - start) 0
    if i < stop then i
    else (bbtOverflowLoop buf ofs stop bad).getD block

/-- `remap_block_bbt`. -/
def remapBlockBbt (s : Bmtd BbtTbl) (block mappedBlk copyLen : Nat) : Bool × Bmtd BbtTbl :=
  match mappingBlockInRange d block with
  | none => (false, s)
  | some _ =>
    let s := bbtSetBlockState d dev s mappedBlk true
    let newBlk := getMappingBlockIndexBbt d s.tbl.bbtBuf block
    let (_, fl) := bbtNandErase d dev s.flash newBlk
    let fl := if copyLen > 0 then (bbtNandCopy d dev fl newBlk mappedBlk copyLen).2 else fl
    (true, { s with flash := fl })

/-- `unmap_block_bbt`. -/
def unmapBlockBbt (s : Bmtd BbtTbl) (block : Nat) : Bmtd BbtTbl :=
  bbtSetBlockState d dev s block false

end

end Lede.Bmt
