/-
Lede.Nmbm.Attach — creating NMBM on a chip, and attaching to a chip that has it.

The signature block carries the start of the management area; the info tables
are searched for from there on. While the first table is searched for, the
block state table is all good; a block that reports bad or cannot be read is
marked bad in memory only, and the first table that is accepted replaces these
marks by its own.

A table is looked for in exactly `size2blk(info_table_size)` blocks from its
first one (`nmbm_try_load_info_table` sets its limit so), all of which must be
good and readable.
-/
import Lede.Nmbm.Update

namespace Lede.Nmbm

open Lede.Nand Lede.Bmt Lede.Lib

/-! ## The signature -/

section Signature

variable (d : NmbmDesc)

/-- `bmtd.total_blks << bmtd.blk_shift`. -/
def nandSize : Nat := d.totalBlks * d.blkSize

/-- The bytes of `ni->signature` for a management area that starts at `mgmt`:
the fields at 0 (magic, version, size, checksum), 16 (`nand_size`, 64 bits), 24
to 36 and the byte at 40, over an instance that was allocated as zeros. -/
def signatureImage (mgmt : Nat) : Nat → UInt8 :=
  let m : Nat → UInt8 := fun a => if a = 40 then UInt8.ofNat nmbmTryCount else 0
  let m := put32 (put32 (put32 m 0 nmbmMagicSignature) 4 nmbmVer) 8 48
  let m := put32 (put32 m 16 (nandSize d % 2 ^ 32)) 20 (nandSize d / 2 ^ 32)
  let m := put32 (put32 (put32 (put32 m 24 d.blkSize) 28 d.pgSize) 32 d.oobSize) 36 mgmt
  nmbmUpdateChecksum m

/-- `ni->signature.mgmt_start_pb`. -/
def mgmtStartPb (sig : Nat → UInt8) : Nat := get32 sig 36

/-- The checks of `nmbm_attach` on the signature it found. -/
def signatureMatches (sig : Nat → UInt8) : Bool :=
  get32 sig 4 == nmbmVer && get32 sig 16 == nandSize d % 2 ^ 32 &&
    get32 sig 20 == nandSize d / 2 ^ 32 && get32 sig 24 == d.blkSize && get32 sig 28 == d.pgSize &&
    get32 sig 32 == d.oobSize

end Signature

section Attach

variable (d : NmbmDesc) (dev : LowerDev)

/-! ## Creating -/

/-- `ni->data_block_count++`. -/
def addDataBlock (s : Attached) : Attached :=
  { s with tbl := { s.tbl with dataBlockCount := s.tbl.dataBlockCount + 1 } }

/-- The loop of `nmbm_create_info_table` over the bad blocks at the end of the
data area, `n` of them left. -/
def mapTailLoop : Nat → Nat → Attached → Attached
  | 0, _, s => s
  | n + 1, lb, s =>
    match nmbmMapBlock d dev s lb with
    | (false, s) => s
    | (true, s) => mapTailLoop n (lb + 1) (addDataBlock s)

/-- `nmbm_create_info_table` up to the first table: the boundary is set, the image
generated. -/
def createStart (s : Attached) (top : Nat) : Attached :=
  generateCache d { s with tbl := { s.tbl with mappingBlocksTopBa := top } }

/-- `nmbm_create_info_table` from the tables on: map the blocks at the end of the
data area, and write that down. -/
def createTail (s : Attached) : Bool × Attached :=
  nmbmUpdateInfoTable d dev
    (mapTailLoop d dev (s.tbl.mgmtStartBa - s.tbl.dataBlockCount) s.tbl.dataBlockCount s)

/-- `nmbm_create_info_table`. -/
def nmbmCreateInfoTable (s : Attached) : Bool × Attached :=
  match nmbmBlockWalkDesc d s.tbl s.tbl.signatureBa 1 s.tbl.mgmtStartBa with
  | none => (false, s)
  | some top =>
    match nmbmRebuildInfoTable d dev (createStart d s top) with
    | (false, s) => (false, s)
    | (true, s) => createTail d dev s

/-- `ni->mgmt_start_ba` of a new chip, in `u32` arithmetic. -/
def newMgmtStart : Nat :=
  let start := d.blockCount * subU32 nmbmMgmtDiv d.maxRatio % 2 ^ 32 / nmbmMgmtDiv
  if d.maxReservedBlocks ≠ 0 ∧ subU32 d.blockCount start > d.maxReservedBlocks then
    subU32 d.blockCount d.maxReservedBlocks
  else start

/-- `nmbm_create_new` up to the tables: scan the chip, build the mapping and write
the signature. -/
def signNew (s : Attached) : Bool × Attached :=
  let s := { s with tbl := { s.tbl with mgmtStartBa := newMgmtStart d } }
  let s := nmbmScanBadblocks d dev s
  let sig := signatureImage d s.tbl.mgmtStartBa
  let s := { s with tbl := { nmbmBuildMappingTable d s.tbl with signature := sig } }
  match nmbmWriteSignature d dev s s.tbl.mgmtStartBa sig with
  | (none, s) => (false, s)
  | (some ba, s) => (true, { s with tbl := { s.tbl with signatureBa := ba } })

/-- `nmbm_create_new`. -/
def nmbmCreateNew (s : Attached) : Bool × Attached :=
  match signNew d dev s with
  | (false, s) => (false, s)
  | (true, s) => nmbmCreateInfoTable d dev s

/-! ## Loading -/

/-- `nmbm_check_info_table_header`. -/
def nmbmCheckInfoTableHeader (m : Nat → UInt8) : Bool :=
  get32 m 0 == nmbmMagicInfoTable && get32 m 8 == d.infoTableSize &&
    decide (d.stateTableSize ≤ subU32 (get32 m 24) (get32 m 20)) &&
    decide (d.mappingTableSize ≤ subU32 d.infoTableSize (get32 m 24))

/-- The first loop of `nmbm_check_info_table`, over the mapping `map` from
logical block `ba` on, `n` blocks left; `none` when an entry is refused. -/
def checkMappingLoop (ni : NmbmInstance) (map : Nat → BitVec 32) (stop : Nat) :
    Nat → Nat → Nat → Option Nat
  | 0, _, minimum => some minimum
  | n + 1, ba, minimum =>
    let pb := (map ba).toNat
    if (ni.dataBlockCount ≤ pb ∧ pb < stop) ∨ pb = ni.signatureBa then none
    else
      checkMappingLoop ni map stop n (ba + 1) (if stop ≤ pb ∧ pb < minimum then pb else minimum)

/-- `nmbm_check_info_table`: the top of the spare blocks, if the table in `m` is
acceptable for the blocks `start .. stop - 1`. -/
def nmbmCheckInfoTable (ni : NmbmInstance) (start stop : Nat) (m : Nat → UInt8) : Option Nat :=
  match checkMappingLoop ni (getWord m (get32 m 24)) stop ni.dataBlockCount 0 ni.signatureBa with
  | none => none
  | some minimum =>
    if (List.range' start (stop - start)).all fun ba =>
        !isGood ni ba || field (getWord m (get32 m 20)) ba == blockStGood
    then some (subU32 minimum 1) else none

/-- What a table that was found reports. -/
structure FoundTable where
  start : Nat
  stop : Nat
  writeCount : Nat
  top : Nat

/-- The block loop of `nmbm_try_load_info_table`, with `n` blocks left before the
limit and `rest` bytes left; `cache` is `info_table_cache`, and `start` the
block of the header once it was checked. `none` stands for a return of false
in the loop or after it for want of bytes. -/
def tryLoadLoop : Nat → Nat → Nat → Option Nat → (Nat → UInt8) → Attached →
    Option (Nat × Nat × (Nat → UInt8)) × Attached
  | 0, ba, rest, start, cache, s =>
    (if rest = 0 then some (start.getD 0, ba, cache) else none,
      { s with tbl := { s.tbl with infoTableCache := cache } })
  | n + 1, ba, rest, start, cache, s =>
    if rest = 0 then
      (some (start.getD 0, ba, cache), { s with tbl := { s.tbl with infoTableCache := cache } })
    else if !isGood s.tbl ba then tryLoadLoop n (ba + 1) rest start cache s
    else
      let (bad, fl) := lowerIsbad dev s.flash ba
      let s := withFlash s fl
      if bad then tryLoadLoop n (ba + 1) rest start cache (setBad s ba)
      else
        let chunk := min rest d.blkSize
        let (ret, fl) := nmbnReadData d dev s.flash (d.blkPg ba) chunk
        let s := withFlash s fl
        if ret ≠ .ok then tryLoadLoop n (ba + 1) rest start cache (setBad s ba)
        else
          let off := d.infoTableSize - rest
          let cache := fun a =>
            if off ≤ a ∧ a < off + chunk then blockByte d s.flash ba (a - off) else cache a
          if start.isNone && !nmbmCheckInfoTableHeader d (fun a => cache (off + a)) then
            (none, { s with tbl := { s.tbl with infoTableCache := cache } })
          else
            tryLoadLoop n (ba + 1) (rest - chunk) (some (start.getD ba)) cache s

/-- The header and the tables in `m` replace those in memory. -/
def adoptTables (s : Attached) (m : Nat → UInt8) : Attached :=
  { s with tbl := { s.tbl with
    infoTable := getInfoTableHeader m
    blockState := fun i => if i < d.stateWords then getWord m (get32 m 20) i else s.tbl.blockState i
    blockMapping := fun i =>
      if i < d.blockCount then getWord m (get32 m 24) i else s.tbl.blockMapping i } }

/-- `nmbm_try_load_info_table`. -/
def nmbmTryLoadInfoTable (s : Attached) (ba : Nat) (tableLoaded : Bool) :
    Option FoundTable × Attached :=
  match tryLoadLoop d dev d.infoBlks ba d.infoTableSize none s.tbl.infoTableCache s with
  | (none, s) => (none, s)
  | (some (start, stop, m), s) =>
    if !nmbmCheckHeader m d.infoTableSize then (none, s)
    else
      match nmbmCheckInfoTable s.tbl start stop m with
      | none => (none, s)
      | some top =>
        let found := { start := ba, stop := stop, writeCount := get32 m 16, top := top }
        if !tableLoaded || get32 m 16 > s.tbl.infoTable.writeCount then
          (some found, adoptTables d s m)
        else (some found, s)

/-- The loop of `nmbm_search_info_table`, with `n` start blocks left. -/
def searchLoop (tableLoaded : Bool) : Nat → Nat → Attached → Option FoundTable × Attached
  | 0, _, s => (none, s)
  | n + 1, ba, s =>
    match nmbmTryLoadInfoTable d dev s ba tableLoaded with
    | (some t, s) => (some t, s)
    | (none, s) => searchLoop tableLoaded n (ba + 1) s

/-- `nmbm_search_info_table`. -/
def nmbmSearchInfoTable (s : Attached) (ba limit : Nat) (tableLoaded : Bool) :
    Option FoundTable × Attached :=
  searchLoop d dev tableLoaded (subU32 limit d.infoBlks - ba) ba s

/-- "Set final data_block_count": the last logical block with a mapping, or
`mgmt_start_pb` when there is none. -/
def finalDataBlockCount (map : Nat → BitVec 32) (start : Nat) : Nat → Nat
  | 0 => start
  | i + 1 => if 0 ≤ (map i).toInt then i + 1 else finalDataBlockCount map start i

/-- `nmbm_load_info_table` from the two tables found on: the boundaries and
`data_block_count`. -/
def pickBoundaries (s : Attached) (main : FoundTable) (backup : Option FoundTable) : Attached :=
  { s with tbl := { s.tbl with
    backupTableBa := (backup.map FoundTable.start).getD 0
    mappingBlocksTopBa :=
      match backup with
      | none => main.top
      | some b => if b.writeCount ≤ main.writeCount then main.top else b.top
    mappingBlocksBa := (backup.map FoundTable.stop).getD main.stop
    dataBlockCount :=
      finalDataBlockCount s.tbl.blockMapping s.tbl.dataBlockCount (mgmtStartPb s.tbl.signature) } }

/-- "Mark state & mapping tables changed". -/
def markChanged (s : Attached) : Attached :=
  { s with tbl := { s.tbl with blockStateChanged := 1, blockMappingChanged := 1 } }

/-- Write the table that is missing or older. -/
def alignTables (s : Attached) (main : FoundTable) (backup : Option FoundTable) : Bool × Attached :=
  match backup with
  | none => nmbmRescueSingleInfoTable d dev s
  | some b =>
    if main.writeCount ≠ b.writeCount then
      nmbmUpdateSingleInfoTable d dev (markChanged s) (main.writeCount < b.writeCount)
    else (true, s)

/-- `nmbm_load_info_table` from the two tables found on: pick the boundaries,
regenerate the cache and bring the tables in line with each other. -/
def finishLoad (s : Attached) (main : FoundTable) (backup : Option FoundTable) : Attached :=
  let (ok, s) := alignTables d dev (generateCache d (pickBoundaries s main backup)) main backup
  if s.tbl.mappingBlocksBa = s.tbl.mappingBlocksTopBa ∨ ok = false then protect s else s

/-- "Set initial value" of `nmbm_load_info_table`. -/
def loadStart (s : Attached) : Attached :=
  { s with tbl := { s.tbl with
    mainTableBa := 0
    backupTableBa := 0
    infoTable := { s.tbl.infoTable with writeCount := 0 }
    mappingBlocksTopBa := s.tbl.signatureBa - 1
    dataBlockCount := mgmtStartPb s.tbl.signature } }

/-- `ni->main_table_ba` is set by the first search. -/
def setMain (s : Attached) (ba : Nat) : Attached := { s with tbl := { s.tbl with mainTableBa := ba } }

/-- `nmbm_load_info_table`. -/
def nmbmLoadInfoTable (s : Attached) (ba limit : Nat) : Bool × Attached :=
  match nmbmSearchInfoTable d dev (loadStart s) ba limit false with
  | (none, s) => (false, s)
  | (some main, s) =>
    let (backup, s) := nmbmSearchInfoTable d dev (setMain s main.start) main.stop limit true
    (true, finishLoad d dev s main backup)

/-- `nmbm_load_existing` on a chip without a table: "Fill block state table & mapping
table". -/
def rescan (s : Attached) : Attached :=
  let s := nmbmScanBadblocks d dev s
  { s with tbl := nmbmBuildMappingTable d s.tbl }

/-- `nmbm_load_existing`. -/
def nmbmLoadExisting (s : Attached) : Bool × Attached :=
  let s := { s with tbl := { s.tbl with mgmtStartBa := mgmtStartPb s.tbl.signature } }
  match nmbmLoadInfoTable d dev s s.tbl.mgmtStartBa s.tbl.signatureBa with
  | (true, s) => (true, s)
  | (false, s) =>
    if !d.forceCreate then (false, s) else nmbmCreateInfoTable d dev (rescan d dev s)

/-! ## Attaching -/

/-- The page loop of `nmbm_find_signature`, with `n` pages left. -/
def findSignatureInBlock : Nat → Nat → Flash → Option (Nat → UInt8) × Flash
  | 0, _, fl => (none, fl)
  | n + 1, pg, fl =>
    let (ret, fl) := nmbnReadData d dev fl pg 48
    if ret ≠ .ok then findSignatureInBlock n (pg + 1) fl
    else
      let sig := fun a => pageByte fl (pg + a / d.pgSize) (a % d.pgSize)
      if nmbmCheckHeader sig 48 && get32 sig 0 == nmbmMagicSignature then (some sig, fl)
      else findSignatureInBlock n (pg + 1) fl

/-- The block loop of `nmbm_find_signature`, over the `n` blocks below `ba`. -/
def findSignatureLoop : Nat → Nat → Flash → Option ((Nat → UInt8) × Nat) × Flash
  | 0, _, fl => (none, fl)
  | n + 1, ba, fl =>
    let ba := ba - 1
    let (bad, fl) := lowerIsbad dev fl ba
    if bad then findSignatureLoop n ba fl
    else
      match findSignatureInBlock d dev d.ppb (d.blkPg ba) fl with
      | (some sig, fl) => (some (sig, ba), fl)
      | (none, fl) => findSignatureLoop n ba fl

/-- The limit of the search in `nmbm_find_signature`, in `u32` arithmetic. -/
def findSignatureLimit : Nat :=
  let limit := d.totalBlks / nmbmMgmtDiv * subU32 nmbmMgmtDiv d.maxRatio % 2 ^ 32
  if d.maxReservedBlocks ≠ 0 ∧ subU32 d.totalBlks limit > d.maxReservedBlocks then
    subU32 d.totalBlks d.maxReservedBlocks
  else limit

/-- `nmbm_find_signature`. The loop tests `ba >= limit` before it decrements, so
the last block looked at is `limit - 1`; with limit 0 it ends at block 0, where
the source would go on with block 2^32 - 1. -/
def nmbmFindSignature (fl : Flash) : Option ((Nat → UInt8) × Nat) × Flash :=
  findSignatureLoop d dev (min d.totalBlks (d.totalBlks + 1 - findSignatureLimit d)) d.totalBlks fl

/-- `nmbm_init_structure` over an instance allocated as zeros. -/
def nmbmInitStructure : NmbmInstance where
  dataBlockCount := 0
  mgmtStartBa := 0
  mainTableBa := 0
  backupTableBa := 0
  mappingBlocksBa := 0
  mappingBlocksTopBa := 0
  signatureBa := 0
  signature := fun _ => 0
  infoTableCache := fun _ => 0
  infoTable := { magic := 0, version := 0, size := 0, checksum := 0, writeCount := 0,
                 stateTableOff := d.stateTableOff, mappingTableOff := d.mappingTableOff, padding := 0 }
  blockState := fun i => if i < d.stateWords then -1#32 else 0
  blockStateChanged := 0
  blockMapping := fun _ => 0
  blockMappingChanged := 0
  readOnly := false

/-- `nmbm_attach`; `true` stands for the return value 0. -/
def nmbmAttach (fl : Flash) : Bool × Attached :=
  match nmbmFindSignature d dev fl with
  | (none, fl) =>
    let s : Attached := { flash := fl, tbl := nmbmInitStructure d }
    if !d.forceCreate then (false, s) else nmbmCreateNew d dev s
  | (some (sig, ba), fl) =>
    let s : Attached :=
      { flash := fl, tbl := { nmbmInitStructure d with signature := sig, signatureBa := ba } }
    if !signatureMatches d sig then (false, s) else nmbmLoadExisting d dev s

end Attach

end Lede.Nmbm
