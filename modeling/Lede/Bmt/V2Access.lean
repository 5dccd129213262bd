/-
Lede.Bmt.V2Access — which bytes of the table buffer `mtk_bmt_v2.c` uses.

The buffer is one allocation of `bufsz` bytes, and the two tables are reached
through `bb_tbl[i]` and `bmt_tbl(bbt)[k]` without a check of the index. The
functions below follow the ones of `Lede.Bmt.V2` and list, in order, the byte
ranges these touch; `Within d.bufsz` says that a list stays in the allocation.

The second half names what has to hold before a step for its list to do so:
`SearchFits`, `ScanFits` and `CreateFits` for the attach, `RemapFits` for a
remap. They are about the device tree, the chip and the tables as the step
finds them.
-/
import Lede.Bmt.V2
import Lede.Lib.Access

namespace Lede.Bmt

open Lede.Nand Lede.Lib

/-! ## What each function touches -/

/-- `bb_tbl[i]`. -/
def bbEntry (i : Nat) : Access := ⟨bbbtHdr + 2 * i, 2⟩

/-- The signature and the version. -/
def header : Access := ⟨0, bbbtHdr⟩

section Use

variable (d : V2Config) (dev : LowerDev)

/-- `bmt_tbl(bbt)[k].block`. -/
def blockEntry (k : Nat) : Access := ⟨d.bmtOff k, 2⟩

/-- `bmt_tbl(bbt)[k].mapped`. -/
def markEntry (k : Nat) : Access := ⟨d.bmtOff k + 2, 2⟩

/-- The buffer as it is cleared, read and stored. -/
def whole : Access := ⟨0, d.bufsz⟩

/-- `memset(bmt_tbl(bmtd.bbt), BMT_TBL_DEF_VAL, table_size * sizeof(struct bbmt))`. -/
def bmtTable : Access := ⟨d.bmtOff 0, 4 * d.tableSize⟩

/-- The first loop of `scan_bad_blocks`. -/
def scanDataUse : Nat → Nat → Bmtd V2Tbl → List Access
  | 0, _, _ => []
  | n + 1, i, s =>
    let (block, fl) := findValidBlock d dev d.bbMax s.flash (bbTbl s.tbl.mem (i - 1) + 1)
    let s : Bmtd V2Tbl := { flash := fl, tbl := { s.tbl with mem := setBbTbl s.tbl.mem i block } }
    bbEntry (i - 1) :: bbEntry i :: (if block = 0 then [] else scanDataUse n (i + 1) s)

/-- The second loop. -/
def scanPoolUse : Nat → Nat → Nat → Flash → List Access
  | 0, _, _, _ => []
  | n + 1, i, block, fl =>
    let (b, fl) := findValidBlock d dev d.bbMax fl block
    if b = 0 then [] else blockEntry d i :: markEntry d i :: scanPoolUse n (i + 1) (b + 1) fl

/-- `scan_bad_blocks`, behind its first loop. -/
def scanRestUse (s : Bmtd V2Tbl) : List Access :=
  let pba := bbTbl s.tbl.mem (d.poolLba - 1) + 1
  bbEntry (d.poolLba - 1) ::
    if pba + 2 ≥ d.totalBlks then []
    else
      let (i, _) := scanPool d dev d.totalBlks 0 pba s
      scanPoolUse d dev d.totalBlks 0 pba s.flash ++ [markEntry d ((i + 65535) % 65536)]

/-- `scan_bad_blocks`. -/
def scanBadBlocksUse (s : Bmtd V2Tbl) : List Access :=
  let s := { s with tbl := { s.tbl with mem := setBbTbl s.tbl.mem 0 0 } }
  let (ok, s') := scanData d dev (d.poolLba - 1) 1 s
  bbEntry 0 :: scanDataUse d dev (d.poolLba - 1) 1 s ++ if ok then scanRestUse d dev s' else []

/-- `upload_bmt(bbt, n)`, on `n + 1`. -/
def uploadBmtUse : Nat → Bmtd V2Tbl → List Access
  | 0, _ => []
  | n + 1, s =>
    markEntry d n ::
      if bmtMark d s.tbl.mem n = normalMapped then []
      else
        let block := bmtBlock d s.tbl.mem n
        let (ok, fl) := bbtNandErase d.toBmtDesc dev s.flash block
        blockEntry d n ::
          if !ok then
            let s := { flash := fl, tbl := { s.tbl with mem := setBmtBlock d s.tbl.mem n 0 } }
            blockEntry d n :: uploadBmtUse n s
          else
            let mem := signTable s.tbl.mem
            let (ok, fl) := writeBmt d.toBmtDesc dev bmtSig fl block mem
            header :: whole d ::
              if !ok then
                let s := { flash := fl, tbl := { s.tbl with mem := setBmtBlock d mem n 0 } }
                blockEntry d n :: uploadBmtUse n s
              else []

/-- The loop of `find_valid_block_in_pool`. -/
def findInPoolUse (mem : Nat → UInt8) : Nat → Nat → List Access
  | 0, _ => []
  | n + 1, i =>
    blockEntry d i ::
      if bmtBlock d mem i = 0 then findInPoolUse mem n (i + 1)
      else
        markEntry d i ::
          if bmtMark d mem i = noMapped then [markEntry d i, blockEntry d i]
          else findInPoolUse mem n (i + 1)

/-- `find_valid_block_in_pool`. -/
def findValidBlockInPoolUse (tbl : V2Tbl) : List Access :=
  if tbl.bmtBlkIdx = 0 then [] else findInPoolUse d tbl.mem tbl.bmtBlkIdx 0

/-- `remap_block_v2`. -/
def remapBlockV2Use (s : Bmtd V2Tbl) (block mappedBlock copyLen : Nat) : List Access :=
  findValidBlockInPoolUse d s.tbl ++
    let (newBlock, tbl) := findValidBlockInPool d s.tbl
    if newBlock = 0 then []
    else
      let tbl := { tbl with mem := setBbTbl tbl.mem block newBlock }
      let (_, fl) := bbtNandErase d.toBmtDesc dev s.flash newBlock
      let fl := if copyLen > 0 then (bbtNandCopy d.toBmtDesc dev fl newBlock mappedBlock copyLen).2
        else fl
      bbEntry block :: uploadBmtUse d dev (tbl.bmtBlkIdx + 1) { flash := fl, tbl := tbl }

/-- `get_bmt_index`, for `n` entries. -/
def getBmtIndexUse (buf : Nat → UInt8) : Nat → Nat → List Access
  | 0, _ => []
  | n + 1, i =>
    blockEntry d i ::
      if bmtBlock d buf i = 0 then []
      else
        markEntry d i :: if bmtMark d buf i = bmtMapped then [] else getBmtIndexUse buf n (i + 1)

/-- The search of `mtk_bmt_init_v2`. The index of a table is looked for until the entries leave
the buffer. -/
def initSearchUse (mem : Nat → UInt8) : Nat → Flash → List Access
  | 0, _ => []
  | n + 1, fl =>
    let (pages, fl) := bbtNandRead dev fl (d.blkPg (d.poolLba + n)) d.bmtPgs
    whole d ::
      match pages with
      | none => initSearchUse mem n fl
      | some pages =>
        let buf := bufOfPages d mem pages
        header ::
          if isValidBmt buf (fdmOfPages d pages) then getBmtIndexUse d buf (d.bufsz + 1) 0
          else initSearchUse mem n fl

/-- With `pool_lba` 0 the search has no lower end: the `u32` block number goes on below 0, and the
`u16` it is read through runs over all its values again. -/
def searchOn (mem : Nat → UInt8) : Nat → Found × Flash → Found × Flash
  | rounds + 1, (.nothing, fl) => searchOn mem rounds (initSearch d dev mem 65536 fl)
  | _, found => found

def searchOnUse (mem : Nat → UInt8) : Nat → Found × Flash → List Access
  | rounds + 1, (.nothing, fl) =>
    initSearchUse d dev mem 65536 fl ++ searchOnUse mem rounds (initSearch d dev mem 65536 fl)
  | _, _ => []

/-- The tables before `scan_bad_blocks`. -/
def scanStart (mem : Nat → UInt8) (fl : Flash) : Bmtd V2Tbl where
  flash := fl
  tbl :=
    { mem := fun a => if d.bmtOff 0 ≤ a ∧ a < d.bmtOff d.tableSize then 0 else mem a
      bmtBlkIdx := 0
      poolPba := 0 }

/-- `mtk_bmt_init_v2` where no table was taken. The last access is the one of the message. -/
def createUse (mem : Nat → UInt8) (fl : Flash) : List Access :=
  if d.totalBlks > d.blksMax then []
  else
    let (ok, s) := scanBadBlocks d dev (scanStart d mem fl)
    bmtTable d :: scanBadBlocksUse d dev (scanStart d mem fl) ++
      if ok then
        uploadBmtUse d dev (s.tbl.bmtBlkIdx + 1) s ++
          [blockEntry d (uploadAtIdx d dev s).tbl.bmtBlkIdx]
      else []

/-- The search as far as `rounds` rounds through all block numbers take it. -/
def searchEnd (rounds : Nat) (fl : Flash) (mem : Nat → UInt8) : Found × Flash :=
  let found := initSearch d dev mem (d.totalBlks - d.poolLba) fl
  if d.poolLba = 0 then searchOn d dev mem rounds found else found

/-- `mtk_bmt_init_v2`, from the allocation on. -/
def mtkBmtInitV2Use (rounds : Nat) (fl : Flash) (mem : Nat → UInt8) : List Access :=
  let found := initSearch d dev mem (d.totalBlks - d.poolLba) fl
  whole d :: initSearchUse d dev mem (d.totalBlks - d.poolLba) fl ++
    (if d.poolLba = 0 then searchOnUse d dev mem rounds found else []) ++
    match searchEnd d dev rounds fl mem with
    | (.table _ _ _, _) => []
    | (.badIndex _, fl) => createUse d dev mem fl
    | (.nothing, fl) => if d.poolLba = 0 then [] else createUse d dev mem fl

/-- The arguments of one call of `remap_block_v2`. -/
structure RemapCall where
  block : Nat
  mappedBlock : Nat
  copyLen : Nat

/-- The remaps of a run, each on the tables the one before left. -/
def remapsUse : Bmtd V2Tbl → List RemapCall → List Access
  | _, [] => []
  | s, c :: cs =>
    remapBlockV2Use d dev s c.block c.mappedBlock c.copyLen ++
      remapsUse (remapBlockV2 d dev s c.block c.mappedBlock c.copyLen).2 cs

end Use

/-! ## What has to hold for that -/

section Fits

variable (d : V2Config) (dev : LowerDev)

/-- The first entry of a stored table that is empty or marked as the table's own ends in the
buffer. -/
def IndexFits (buf : Nat → UInt8) : Prop :=
  ∃ k, (∀ j < k, bmtBlock d buf j ≠ 0 ∧ bmtMark d buf j ≠ bmtMapped) ∧
    ((bmtBlock d buf k = 0 ∧ d.bmtOff k + 2 ≤ d.bufsz) ∨
      (bmtMark d buf k = bmtMapped ∧ d.bmtOff (k + 1) ≤ d.bufsz))

/-- Over the blocks in the order of the search: a block that can be read meets a buffer with a
header, and the first that holds a table holds one whose index is in the buffer. -/
def SearchFits (mem : Nat → UInt8) : Nat → Flash → Prop
  | 0, _ => True
  | n + 1, fl =>
    let (pages, fl) := bbtNandRead dev fl (d.blkPg (d.poolLba + n)) d.bmtPgs
    match pages with
    | none => SearchFits mem n fl
    | some pages =>
      let buf := bufOfPages d mem pages
      bbbtHdr ≤ d.bufsz ∧
        if isValidBmt buf (fdmOfPages d pages) then IndexFits d buf else SearchFits mem n fl

def SearchOnFits (mem : Nat → UInt8) : Nat → Found × Flash → Prop
  | rounds + 1, (.nothing, fl) =>
    SearchFits d dev mem 65536 fl ∧ SearchOnFits mem rounds (initSearch d dev mem 65536 fl)
  | _, _ => True

/-- The blocks in use, block 0 and from there on the block `find_valid_block` delivers behind the
one before, 0 where it delivers none; and the chip after that many calls. -/
def nthValid (fl : Flash) : Nat → Nat × Flash
  | 0 => (0, fl)
  | i + 1 => findValidBlock d dev d.bbMax (nthValid fl i).2 ((nthValid fl i).1 + 1)

/-- There are blocks for the data area, and at least three more behind them. -/
structure PoolReached (fl : Flash) : Prop where
  data : ∀ i, 1 ≤ i → i < d.poolLba → (nthValid d dev fl i).1 ≠ 0
  room : (nthValid d dev fl (d.poolLba - 1)).1 + 3 < d.totalBlks

/-- There are blocks for the pool slots up to `k`. -/
def PoolHas (fl : Flash) (k : Nat) : Prop :=
  ∀ j ≤ k, (nthValid d dev fl (d.poolLba - 1 + 1 + j)).1 ≠ 0

/-- The pool of the chip is not empty and no larger than the buffer holds. -/
def ScanFits (fl : Flash) : Prop :=
  PoolReached d dev fl →
    (PoolHas d dev fl 0 ∨ d.bmtOff 65536 ≤ d.bufsz) ∧
      ∀ k, PoolHas d dev fl k → d.bmtOff (k + 1) ≤ d.bufsz

/-- From slot `n - 1` down every block fails to erase or to program, until a slot in use or the
lower end of the pool. -/
inductive NoSlotTakes : Nat → Bmtd V2Tbl → Prop where
  | bottom (s : Bmtd V2Tbl) : NoSlotTakes 0 s
  | inUse {n : Nat} {s : Bmtd V2Tbl} (h : bmtMark d s.tbl.mem n = normalMapped) :
    NoSlotTakes (n + 1) s
  | eraseFails {n : Nat} {s : Bmtd V2Tbl} {fl : Flash}
    (h : bbtNandErase d.toBmtDesc dev s.flash (bmtBlock d s.tbl.mem n) = (false, fl))
    (rest : NoSlotTakes n { flash := fl, tbl := { s.tbl with mem := setBmtBlock d s.tbl.mem n 0 } }) :
    NoSlotTakes (n + 1) s
  | writeFails {n : Nat} {s : Bmtd V2Tbl} {fl fl' : Flash}
    (h : bbtNandErase d.toBmtDesc dev s.flash (bmtBlock d s.tbl.mem n) = (true, fl))
    (h' : writeBmt d.toBmtDesc dev bmtSig fl (bmtBlock d s.tbl.mem n) (signTable s.tbl.mem)
      = (false, fl'))
    (rest : NoSlotTakes n
      { flash := fl', tbl := { s.tbl with mem := setBmtBlock d (signTable s.tbl.mem) n 0 } }) :
    NoSlotTakes (n + 1) s

/-- No table was taken: the chip has more blocks than the tables can describe, or `bmt_tbl` with
`table_size` entries ends in the buffer, the pool fits and one of its blocks takes the table. -/
def CreateFits (mem : Nat → UInt8) (fl : Flash) : Prop :=
  d.totalBlks ≤ d.blksMax →
    d.bmtOff d.tableSize ≤ d.bufsz ∧ ScanFits d dev fl ∧
      (PoolReached d dev fl → PoolHas d dev fl 0 →
        let s := (scanBadBlocks d dev (scanStart d mem fl)).2
        NoSlotTakes d dev (s.tbl.bmtBlkIdx + 1) s → d.bmtOff noSlot + 2 ≤ d.bufsz)

def InitFits (rounds : Nat) (fl : Flash) (mem : Nat → UInt8) : Prop :=
  SearchFits d dev mem (d.totalBlks - d.poolLba) fl ∧
    (d.poolLba = 0 →
      SearchOnFits d dev mem rounds (initSearch d dev mem (d.totalBlks - d.poolLba) fl)) ∧
    match searchEnd d dev rounds fl mem with
    | (.table _ _ _, _) => True
    | (.badIndex _, fl) => CreateFits d dev mem fl
    | (.nothing, fl) => d.poolLba = 0 ∨ CreateFits d dev mem fl

/-- A slot below the table's own is free. -/
def FreeSlot (tbl : V2Tbl) : Prop :=
  ∃ k < tbl.bmtBlkIdx, bmtBlock d tbl.mem k ≠ 0 ∧ bmtMark d tbl.mem k = noMapped

/-- A remap fits: with a free slot, the entry of the block and the table's own slot are in the
buffer; without one, the slots that are looked at. -/
def RemapFits (tbl : V2Tbl) (block : Nat) : Prop :=
  (FreeSlot d tbl → bbbtHdr + 2 * block + 2 ≤ d.bufsz ∧ d.bmtOff (tbl.bmtBlkIdx + 1) ≤ d.bufsz) ∧
    (¬ FreeSlot d tbl → ∀ k < tbl.bmtBlkIdx,
      d.bmtOff k + (if bmtBlock d tbl.mem k = 0 then 2 else 4) ≤ d.bufsz)

def RemapsFit : Bmtd V2Tbl → List RemapCall → Prop
  | _, [] => True
  | s, c :: cs =>
    RemapFits d s.tbl c.block ∧
      RemapsFit (remapBlockV2 d dev s c.block c.mappedBlock c.copyLen).2 cs

end Fits

end Lede.Bmt
