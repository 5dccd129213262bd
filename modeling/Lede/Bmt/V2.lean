/-
Lede.Bmt.V2 — the `mediatek,bmt-v2` back end of `mtk_bmt_v2.c`.

The tables live in one buffer, `struct bbbt`: a signature and a version (four
bytes), `bb_tbl`, one 16-bit word for each of `table_size` logical blocks, and
behind it `bmt_tbl`, two 16-bit words for each block of the pool. The buffer
is modelled as the memory that begins at its first byte (`V2Tbl.mem`), without
an end: an index behind a table reads and writes what lies there, as it does
in C. So `bb_tbl[table_size]` is `bmt_tbl[0].block`, and an index behind the
allocation meets memory that no line of this file ever wrote.

Loops keep the order of the reads, erases and programs of the source. The
retry loops of `find_valid_block` and `upload_bmt` count down on the variable
that bounds them.
-/
import Lede.Bmt.Core
import Lede.Lib.Bytes

namespace Lede.Bmt

open Lede.Nand Lede.Lib

/-! ## Layout -/

/-- `sizeof(struct bbbt)`: the signature and the version. -/
def bbbtHdr : Nat := 4

def noMapped : Nat := 0
def normalMapped : Nat := 1
def bmtMapped : Nat := 2

/-- `BBMT_VERSION`. -/
def bbmtVersion : UInt8 := 2

/-- The `(u16)-1` that `upload_bmt` returns when no slot took the table. -/
def noSlot : Nat := 65535

/-- "bmt", the signature in the out-of-band bytes. -/
def bmtSig : List UInt8 := [0x62, 0x6d, 0x74]

/-- The descriptor with the device-tree properties of this back end, as they are read. -/
structure V2Config extends BmtDesc where
  tableSize : Nat
  poolSize : Nat
  totalBlks_pos : 0 < totalBlks

namespace V2Config

variable (d : V2Config)

/-- `pmt_block`, a `u16`, the end of the visible device: `mtd->size >> blk_shift`. -/
def pmtBlock : Nat := (((d.totalBlks : Int) - d.poolSize - 2) % 65536).toNat

/-- `bmtd.pool_lba`, a `u16`. -/
def poolLba : Nat := (d.pmtBlock + 2) % 65536

/-- `bmtd.bb_max`. -/
def bbMax : Nat := d.totalBlks * 2 / 100

/-- The bytes of the buffer that are stored and read back. -/
def bufsz : Nat := d.bmtPgs * d.pgSize

/-- `BB_TABLE_MAX + BMT_TABLE_MAX`, in the `u32` of the table size. -/
def blksMax : Nat := (d.tableSize + d.tableSize * 2 % 2 ^ 32 / 100) % 2 ^ 32

/-- Offset of `bmt_tbl[k]`. -/
def bmtOff (k : Nat) : Nat := bbbtHdr + 2 * d.tableSize + 4 * k

end V2Config

/-- A configuration without surprises: `bmt_pgs` is what `mtk_bmt_init_v2` computes from the table
size where the `u32` does not wrap; the pool and the two PMT blocks leave room for at least one
block of data. -/
structure V2Desc extends V2Config where
  poolSize_lt : poolSize + 2 < totalBlks
  bmtPgs_eq : bmtPgs = (bbbtHdr + tableSize * 4 + 2 ^ pgShift - 1) / 2 ^ pgShift

instance : Coe V2Desc V2Config := ⟨V2Desc.toV2Config⟩

namespace V2Desc

variable (d : V2Desc)

theorem pmtBlock_eq : d.pmtBlock = d.totalBlks - d.poolSize - 2 := by
  have hps := d.poolSize_lt
  have htot := d.totalBlks_lt
  unfold V2Config.pmtBlock
  omega

theorem poolLba_eq : d.poolLba = d.pmtBlock + 2 := by
  have hps := d.poolSize_lt
  have htot := d.totalBlks_lt
  unfold V2Config.poolLba
  rw [pmtBlock_eq]
  omega

end V2Desc

/-- The tables: the memory from `bmtd.bbt_buf` on, and the two positions the
driver keeps in `bmtd`. -/
structure V2Tbl where
  mem : Nat → UInt8
  bmtBlkIdx : Nat
  poolPba : Nat

section Access

variable (d : V2Config) (mem : Nat → UInt8)

/-- `bbt->bb_tbl[i]`. -/
def bbTbl (i : Nat) : Nat := get16 mem (bbbtHdr + 2 * i)

/-- `bmt_tbl(bbt)[k].block`. -/
def bmtBlock (k : Nat) : Nat := get16 mem (d.bmtOff k)

/-- `bmt_tbl(bbt)[k].mapped`. -/
def bmtMark (k : Nat) : Nat := get16 mem (d.bmtOff k + 2)

def setBbTbl (i v : Nat) : Nat → UInt8 := set16 mem (bbbtHdr + 2 * i) v
def setBmtBlock (k v : Nat) : Nat → UInt8 := set16 mem (d.bmtOff k) v
def setBmtMark (k v : Nat) : Nat → UInt8 := set16 mem (d.bmtOff k + 2) v

/-- `memcpy(bbt->signature, "BMT", 3); bbt->version = BBMT_VERSION`. -/
def signTable : Nat → UInt8 := fun a =>
  if a = 0 then 0x42 else if a = 1 then 0x4d else if a = 2 then 0x54
  else if a = 3 then bbmtVersion else mem a

end Access

/-! ## The factory scan -/

section Scan

variable (d : V2Config) (dev : LowerDev)

/-- `!ret && fdm[0] == 0xff`: the out-of-band byte 0 of the first page marks a
bad block. -/
def fdmGood (ret : ReadRet) (c : Page) : Bool :=
  match ret with
  | .ok _ => c.oob.getD d.oobOffset 0xff == 0xff
  | _ => false

/-- `find_valid_block`, with `k` skips left before `bb_max` is reached. -/
def findValidBlock : Nat → Flash → Nat → Nat × Flash
  | k, fl, block =>
    if block ≥ d.totalBlks then (0, fl)
    else
      let (ret, c, fl) := lowerRead dev fl (d.blkPg block)
      if fdmGood d ret c then (block, fl)
      else
        match k with
        | 0 => (0, fl)
        | k + 1 => findValidBlock k fl (block + 1)

/-- The first loop of `scan_bad_blocks`: fill `bb_tbl[i]` for the next `n`
logical blocks. -/
def scanData : Nat → Nat → Bmtd V2Tbl → Bool × Bmtd V2Tbl
  | 0, _, s => (true, s)
  | n + 1, i, s =>
    let (block, fl) := findValidBlock d dev d.bbMax s.flash (bbTbl s.tbl.mem (i - 1) + 1)
    let s : Bmtd V2Tbl := { flash := fl, tbl := { s.tbl with mem := setBbTbl s.tbl.mem i block } }
    if block = 0 then (false, s) else scanData n (i + 1) s

/-- The second loop: fill `bmt_tbl[i]` from block `block` on. Each round moves
`block` up, so `total_blks` rounds are enough. Returns the pool size. -/
def scanPool : Nat → Nat → Nat → Bmtd V2Tbl → Nat × Bmtd V2Tbl
  | 0, i, _, s => (i, s)
  | n + 1, i, block, s =>
    let (b, fl) := findValidBlock d dev d.bbMax s.flash block
    if b = 0 then (i, { s with flash := fl })
    else
      let mem := setBmtMark d (setBmtBlock d s.tbl.mem i b) i noMapped
      scanPool n (i + 1) (b + 1) { flash := fl, tbl := { s.tbl with mem := mem } }

/-- `scan_bad_blocks`; `true` stands for the return value 0. With an empty pool
the index is `(u16)(0 - 1)`. -/
def scanBadBlocks (s : Bmtd V2Tbl) : Bool × Bmtd V2Tbl :=
  let s := { s with tbl := { s.tbl with mem := setBbTbl s.tbl.mem 0 0 } }
  let (ok, s) := scanData d dev (d.poolLba - 1) 1 s
  if !ok then (false, s)
  else
    let pba := bbTbl s.tbl.mem (d.poolLba - 1) + 1
    let s := { s with tbl := { s.tbl with poolPba := pba } }
    if pba + 2 ≥ d.totalBlks then (false, s)
    else
      let (i, s) := scanPool d dev d.totalBlks 0 pba s
      let idx := (i + 65535) % 65536
      let mem := setBmtMark d s.tbl.mem idx bmtMapped
      (1 ≤ i, { s with tbl := { s.tbl with mem := mem, bmtBlkIdx := idx } })

end Scan

/-! ## Storing the table, and remapping -/

section Remap

variable (d : V2Config) (dev : LowerDev)

/-- `upload_bmt(bbt, n)`, on `n + 1` so that 0 is the `n < 0` of the source.
A slot that fails to erase or to program loses its block number and the slot
below is tried. -/
def uploadBmt : Nat → Bmtd V2Tbl → Nat × Bmtd V2Tbl
  | 0, s => (noSlot, s)
  | n + 1, s =>
    if bmtMark d s.tbl.mem n = normalMapped then (noSlot, s)
    else
      let block := bmtBlock d s.tbl.mem n
      let (ok, fl) := bbtNandErase d.toBmtDesc dev s.flash block
      if !ok then
        uploadBmt n { flash := fl, tbl := { s.tbl with mem := setBmtBlock d s.tbl.mem n 0 } }
      else
        let mem := signTable s.tbl.mem
        let (ok, fl) := writeBmt d.toBmtDesc dev bmtSig fl block mem
        if !ok then
          uploadBmt n { flash := fl, tbl := { s.tbl with mem := setBmtBlock d mem n 0 } }
        else (n, { flash := fl, tbl := { s.tbl with mem := mem } })

/-- `bmtd.bmt_blk_idx = upload_bmt(bbt, bmtd.bmt_blk_idx)`. -/
def uploadAtIdx (s : Bmtd V2Tbl) : Bmtd V2Tbl :=
  let (n, s) := uploadBmt d dev (s.tbl.bmtBlkIdx + 1) s
  { s with tbl := { s.tbl with bmtBlkIdx := n } }

/-- The loop of `find_valid_block_in_pool`, with `n` slots left. -/
def findInPool (mem : Nat → UInt8) : Nat → Nat → Option Nat
  | 0, _ => none
  | n + 1, i =>
    if bmtBlock d mem i ≠ 0 ∧ bmtMark d mem i = noMapped then some i else findInPool mem n (i + 1)

/-- `find_valid_block_in_pool`: the block handed out (0 for none), marked as
used. -/
def findValidBlockInPool (tbl : V2Tbl) : Nat × V2Tbl :=
  if tbl.bmtBlkIdx = 0 then (0, tbl)
  else
    match findInPool d tbl.mem tbl.bmtBlkIdx 0 with
    | none => (0, tbl)
    | some i => (bmtBlock d tbl.mem i, { tbl with mem := setBmtMark d tbl.mem i normalMapped })

/-- `remap_block_v2`. -/
def remapBlockV2 (s : Bmtd V2Tbl) (block mappedBlock copyLen : Nat) : Bool × Bmtd V2Tbl :=
  let (newBlock, tbl) := findValidBlockInPool d s.tbl
  if newBlock = 0 then (false, { s with tbl := tbl })
  else
    let tbl := { tbl with mem := setBbTbl tbl.mem block newBlock }
    let (_, fl) := bbtNandErase d.toBmtDesc dev s.flash newBlock
    let fl := if copyLen > 0 then (bbtNandCopy d.toBmtDesc dev fl newBlock mappedBlock copyLen).2
      else fl
    (true, uploadAtIdx d dev { flash := fl, tbl := tbl })

/-- `get_mapping_block_index_v2`. -/
def getMappingBlockIndexV2 (mem : Nat → UInt8) (block : Nat) : Nat :=
  if block ≥ d.poolLba then block
  else
    match mappingBlockInRange d.toBmtDesc block with
    | none => block
    | some _ => bbTbl mem block

/-- `unmap_block_v2`. -/
def unmapBlockV2 (s : Bmtd V2Tbl) (block : Nat) : Bmtd V2Tbl :=
  uploadAtIdx d dev { s with tbl := { s.tbl with mem := setBbTbl s.tbl.mem block block } }

end Remap

/-! ## Garbage collection of the pool -/

section Debug

variable (d : V2Config) (dev : LowerDev)

/-- The inner loop of `mtk_bmt_get_mapping_mask`: the first slot below
`bmt_blk_idx` that holds the block. -/
def maskSlot (mem : Nat → UInt8) (block : Nat) : Nat → Nat → Option Nat
  | 0, _ => none
  | n + 1, k => if block = bmtBlock d mem k then some k else maskSlot mem block n (k + 1)

/-- `mtk_bmt_get_mapping_mask`: the bit of a slot, over the logical blocks
`1 .. main_blocks - 1`. -/
def mtkBmtGetMappingMask (tbl : V2Tbl) (slot : Nat) : Bool :=
  (List.range' 1 (d.pmtBlock - 1)).any fun i =>
    bbTbl tbl.mem i != i && maskSlot d tbl.mem (bbTbl tbl.mem i) tbl.bmtBlkIdx 0 == some slot

/-- The loop of `mtk_bmt_debug_v2(100)`: free the slots `i, i+1, ..` that are
in use and not in the mask; also how many were freed. -/
def freeUnused (used : Nat → Bool) : Nat → Nat → Nat → (Nat → UInt8) → Nat × (Nat → UInt8)
  | 0, _, freed, mem => (freed, mem)
  | n + 1, i, freed, mem =>
    if bmtMark d mem i ≠ normalMapped then freeUnused used n (i + 1) freed mem
    else if used i then freeUnused used n (i + 1) freed mem
    else freeUnused used n (i + 1) (freed + 1) (setBmtMark d mem i noMapped)

/-- `mtk_bmt_debug_v2(100)`. -/
def mtkBmtDebugV2Gc (s : Bmtd V2Tbl) : Bmtd V2Tbl :=
  let used := mtkBmtGetMappingMask d s.tbl
  let (freed, mem) := freeUnused d used (s.tbl.bmtBlkIdx + 1) 0 0 s.tbl.mem
  let s := { s with tbl := { s.tbl with mem := mem } }
  if freed ≠ 0 then uploadAtIdx d dev s else s

end Debug

/-! ## Attaching -/

section Init

variable (d : V2Config) (dev : LowerDev)

/-- The memory from the buffer on after `bbt_nand_read` has filled the buffer
from the stored pages; `mem` is what lies behind it. -/
def bufOfPages (mem : Nat → UInt8) (pages : List Page) : Nat → UInt8 := fun a =>
  if a < d.bufsz then (pages.getD (a / d.pgSize) ⟨[], []⟩).data.getD (a % d.pgSize) 0xff
  else mem a

/-- The first four out-of-band bytes of the first page. -/
def fdmOfPages (pages : List Page) (i : Nat) : UInt8 :=
  (pages.getD 0 ⟨[], []⟩).oob.getD (d.oobOffset + i) 0xff

/-- `is_valid_bmt`. -/
def isValidBmt (buf : Nat → UInt8) (fdm : Nat → UInt8) : Bool :=
  buf 0 == 0x42 && buf 1 == 0x4d && buf 2 == 0x54 &&
    fdm 1 == 0x62 && fdm 2 == 0x6d && fdm 3 == 0x74 && buf 3 == bbmtVersion

/-- `get_bmt_index`. The source runs until an empty entry; an index is a `u16`,
so the search stops after 65536 entries, where it would have left any buffer. -/
def getBmtIndexLoop (mem : Nat → UInt8) : Nat → Nat → Nat
  | 0, _ => 0
  | n + 1, i =>
    if bmtBlock d mem i = 0 then 0
    else if bmtMark d mem i = bmtMapped then i
    else getBmtIndexLoop mem n (i + 1)

def getBmtIndex (mem : Nat → UInt8) : Nat := getBmtIndexLoop d mem 65536 0

/-- What the search of `mtk_bmt_init_v2` ends with. -/
inductive Found where
  /-- No block holds a table. -/
  | nothing
  /-- A table without a usable index ends the search. -/
  | badIndex (block : Nat)
  /-- The table taken: its block, the memory with it and its index. -/
  | table (block : Nat) (mem : Nat → UInt8) (idx : Nat)

/-- The search of `mtk_bmt_init_v2`, over the `n` blocks from
`pool_lba + n - 1` down. -/
def initSearch (mem : Nat → UInt8) : Nat → Flash → Found × Flash
  | 0, fl => (.nothing, fl)
  | n + 1, fl =>
    let block := d.poolLba + n
    let (pages, fl) := bbtNandRead dev fl (d.blkPg block) d.bmtPgs
    match pages with
    | none => initSearch mem n fl
    | some pages =>
      let buf := bufOfPages d mem pages
      if isValidBmt buf (fdmOfPages d pages) then
        let idx := getBmtIndex d buf
        if idx = 0 then (.badIndex block, fl) else (.table block buf idx, fl)
      else initSearch mem n fl

/-- `mtk_bmt_init_v2`, from the search on: `mem` is the memory at the buffer
when the search finds nothing, the last block read and whatever lies behind
it. A table found is used as it is; otherwise the chip is scanned and the first
table stored. `none` stands for the error return. -/
def mtkBmtInitV2 (fl : Flash) (mem : Nat → UInt8) : Option (Bmtd V2Tbl) :=
  let (found, fl) := initSearch d dev mem (d.totalBlks - d.poolLba) fl
  match found with
  | .table _ buf idx => some { flash := fl, tbl := { mem := buf, bmtBlkIdx := idx, poolPba := 0 } }
  | _ =>
    if d.totalBlks > d.blksMax then none
    else
      -- memset(bmt_tbl, BMT_TBL_DEF_VAL, table_size * sizeof(struct bbmt))
      let mem := fun a => if d.bmtOff 0 ≤ a ∧ a < d.bmtOff d.tableSize then 0 else mem a
      let (ok, s) := scanBadBlocks d dev { flash := fl, tbl := { mem, bmtBlkIdx := 0, poolPba := 0 } }
      if !ok then none
      else
        let s := uploadAtIdx d dev s
        if s.tbl.bmtBlkIdx = noSlot then none else some s

end Init

end Lede.Bmt
