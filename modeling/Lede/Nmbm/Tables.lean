/-
Lede.Nmbm.Tables — the in-memory side of `mtk_bmt_nmbm.c`: the instance, the
block state table, the walks over it, and the bytes of an info table.

An info table is a header of 32 bytes, the block state table (two bits a block)
and the block mapping table (an `int32_t` a block), each part aligned to pages.
`struct nmbm_instance` keeps the two tables as arrays and the image to be
written in `info_table_cache`.

A block number in `block_mapping` is an `int32_t`, -1 for "none"; the loader
compares it with `u32` values, which turns -1 into the largest one. So an entry
is a `BitVec 32` here, read with `toNat` where C compares it as unsigned.

A `ba` in this file never wraps: it stays below `block_count`, a `u16`. Where
the source subtracts from a block address without a check, the subtraction is
taken modulo 2^32 (`subU32`).
-/
import Lede.Bmt.Core
import Lede.Lib.Words

namespace Lede.Nmbm

open Lede.Nand Lede.Bmt Lede.Lib

/-! ## Constants and sizes -/

def nmbmMagicSignature : Nat := 0x304d4d4e
def nmbmMagicInfoTable : Nat := 0x314d4d4e

/-- `NMBM_VER`: major 1, minor 0. -/
def nmbmVer : Nat := 1

def nmbmTryCount : Nat := 3
def nmbmMgmtDiv : Nat := 16
def nmbmSpareBlockMin : Nat := 2

def blockStBad : BitVec 32 := 0
def blockStGood : BitVec 32 := 3

/-- `u32` subtraction. Irreducible, so that no proof counts to 2^32. -/
@[irreducible] def subU32 (a b : Nat) : Nat := (a + 2 ^ 32 - b) % 2 ^ 32

/-- `ALIGN`. -/
def alignUp (n a : Nat) : Nat := (n + a - 1) / a * a

/-- The descriptor with the device-tree properties of this back end. NAND pages have
512 bytes or more, so a page holds a signature and a block holds a header. -/
structure NmbmDesc extends BmtDesc where
  pgShift_ge : 9 ≤ pgShift
  oobSize : Nat
  maxRatio : Nat
  maxRatio_lt : maxRatio < 2 ^ 32
  maxReservedBlocks : Nat
  emptyPageEccOk : Bool
  forceCreate : Bool

namespace NmbmDesc

/-- The least page holds 512 bytes. -/
theorem page512_ge : 9 ≤ 9 := Nat.le_refl 9

variable (d : NmbmDesc)

/-- `ni->block_count`. -/
def blockCount : Nat := d.totalBlks

/-- Words of the block state table. -/
def stateWords : Nat := (d.blockCount + 15) / 16

def stateTableSize : Nat := d.stateWords * 4
def mappingTableSize : Nat := d.blockCount * 4

/-- `sizeof(struct nmbm_info_table_header)` up to the next page. -/
def stateTableOff : Nat := alignUp 32 d.pgSize
def mappingTableOff : Nat := d.stateTableOff + alignUp d.stateTableSize d.pgSize
def infoTableSize : Nat := d.mappingTableOff + alignUp d.mappingTableSize d.pgSize

/-- `size2blk`. -/
def size2blk (size : Nat) : Nat := (size + d.blkSize - 1) / d.blkSize

/-- Erase blocks of one info table. -/
def infoBlks : Nat := d.size2blk d.infoTableSize

/-- `nmbm_get_spare_block_count(size2blk(info_table_size))`. -/
def infoTableSpareBlocks : Nat := max ((d.infoBlks + 1) / 2) nmbmSpareBlockMin

end NmbmDesc

/-! ## The instance -/

/-- `ni->info_table`: the header of the table that is current in memory. -/
structure InfoTableHeader where
  magic : Nat
  version : Nat
  size : Nat
  checksum : Nat
  writeCount : Nat
  stateTableOff : Nat
  mappingTableOff : Nat
  padding : Nat

/-- The positions `struct nmbm_instance` keeps. A table at block 0 does not
exist. -/
structure Layout where
  dataBlockCount : Nat
  mgmtStartBa : Nat
  mainTableBa : Nat
  backupTableBa : Nat
  mappingBlocksBa : Nat
  mappingBlocksTopBa : Nat
  signatureBa : Nat

/-- `struct nmbm_instance`, less what `NmbmDesc` computes. `signature` holds the
48 bytes of `struct nmbm_signature`. -/
structure NmbmInstance extends Layout where
  signature : Nat → UInt8
  infoTableCache : Nat → UInt8
  infoTable : InfoTableHeader
  blockState : Nat → BitVec 32
  blockStateChanged : Nat
  blockMapping : Nat → BitVec 32
  blockMappingChanged : Nat
  readOnly : Bool

/-- The chip and the instance attached to it. -/
abbrev Attached := Bmtd NmbmInstance

/-! ## Block states -/

/-- `nmbm_get_block_state`. -/
def getBlockState (ni : NmbmInstance) (ba : Nat) : BitVec 32 := field ni.blockState ba

/-- `nmbm_set_block_state`; its return value is never used. -/
def setBlockState (ni : NmbmInstance) (ba : Nat) (state : BitVec 32) : NmbmInstance :=
  { ni with
    blockState := setField ni.blockState ba state
    blockStateChanged :=
      if getBlockState ni ba ≠ state &&& 3#32 then ni.blockStateChanged + 1 else ni.blockStateChanged }

/-- A block that may be used. -/
def isGood (ni : NmbmInstance) (ba : Nat) : Bool := getBlockState ni ba == blockStGood

/-- The loop of `nmbm_block_walk_asc`, with `n` blocks left before the limit. -/
def walkAscLoop (ni : NmbmInstance) : Nat → Nat → Int → Option Nat
  | 0, _, _ => none
  | n + 1, ba, nblock =>
    let nblock := if isGood ni ba then nblock - 1 else nblock
    if nblock < 0 then some ba else walkAscLoop ni n (ba + 1) nblock

/-- `nmbm_block_walk_asc`. -/
def nmbmBlockWalkAsc (d : NmbmDesc) (ni : NmbmInstance) (ba : Nat) (count : Int) (limit : Nat) :
    Option Nat :=
  let limit := if limit ≥ d.blockCount then d.blockCount - 1 else limit
  walkAscLoop ni (limit - ba) ba count

/-- The loop of `nmbm_block_walk_desc`, over the `n` blocks from `ba` down. -/
def walkDescLoop (ni : NmbmInstance) : Nat → Nat → Int → Option Nat
  | 0, _, _ => none
  | n + 1, ba, nblock =>
    let nblock := if isGood ni ba then nblock - 1 else nblock
    if nblock < 0 then some ba else walkDescLoop ni n (ba - 1) nblock

/-- `nmbm_block_walk_desc`. -/
def nmbmBlockWalkDesc (d : NmbmDesc) (ni : NmbmInstance) (ba : Nat) (count : Int) (limit : Nat) :
    Option Nat :=
  let limit := if limit ≥ d.blockCount then d.blockCount - 1 else limit
  walkDescLoop ni (ba - limit) ba count

/-- `nmbm_try_reserve_blocks` with `min_count` 0. -/
def nmbmTryReserveBlocks (d : NmbmDesc) (ni : NmbmInstance) (ba : Nat) : Nat → Nat → Option Nat
  | 0, limit => nmbmBlockWalkAsc d ni ba 0 limit
  | count + 1, limit =>
    match nmbmBlockWalkAsc d ni ba (count + 1 : Nat) limit with
    | some nba => some nba
    | none => nmbmTryReserveBlocks d ni ba count limit

/-- The first loop of `nmbm_build_mapping_table`, with `n` physical blocks left
and `lb` logical blocks mapped; returns `data_block_count`. -/
def buildMappingLoop (ni : NmbmInstance) :
    Nat → Nat → Nat → (Nat → BitVec 32) → Nat × (Nat → BitVec 32)
  | 0, _, lb, map => (lb, map)
  | n + 1, pb, lb, map =>
    if getBlockState ni pb = blockStBad then buildMappingLoop ni n (pb + 1) lb map
    else
      buildMappingLoop ni n (pb + 1) (lb + 1)
        (fun i => if i = lb then BitVec.ofNat 32 pb else map i)

/-- `nmbm_build_mapping_table`. -/
def nmbmBuildMappingTable (d : NmbmDesc) (ni : NmbmInstance) : NmbmInstance :=
  let (lb, map) := buildMappingLoop ni ni.mgmtStartBa 0 0 ni.blockMapping
  { ni with
    dataBlockCount := lb
    blockMapping := fun i => if lb ≤ i ∧ i < d.blockCount then -1#32 else map i }

/-! ## Headers and checksums -/

/-- The structure with its `checksum` field cleared. -/
def clearChecksum (m : Nat → UInt8) : Nat → UInt8 := put32 m 12 0

/-- `nmbm_update_checksum`. -/
def nmbmUpdateChecksum (m : Nat → UInt8) : Nat → UInt8 :=
  put32 m 12 (crc32Le 0 (clearChecksum m) 0 (get32 m 8)).toNat

/-- `nmbm_check_header`. -/
def nmbmCheckHeader (m : Nat → UInt8) (size : Nat) : Bool :=
  if get32 m 8 > size then false
  else
    let sum := crc32Le 0 (clearChecksum m) 0 16
    let sum := if get32 m 8 > 16 then crc32Le sum m 16 (get32 m 8 - 16) else sum
    get32 m 12 == sum.toNat

/-- The bytes of `struct nmbm_info_table_header`, over `m`. -/
def putInfoTableHeader (m : Nat → UInt8) (h : InfoTableHeader) : Nat → UInt8 :=
  put32 (put32 (put32 (put32 (put32 (put32 (put32 (put32 m 0 h.magic) 4 h.version) 8 h.size)
    12 h.checksum) 16 h.writeCount) 20 h.stateTableOff) 24 h.mappingTableOff) 28 h.padding

/-- `memcpy(&ni->info_table, ifthdr, sizeof(ni->info_table))`. -/
def getInfoTableHeader (m : Nat → UInt8) : InfoTableHeader where
  magic := get32 m 0
  version := get32 m 4
  size := get32 m 8
  checksum := get32 m 12
  writeCount := get32 m 16
  stateTableOff := get32 m 20
  mappingTableOff := get32 m 24
  padding := get32 m 28

/-- `ni->block_state_changed || ni->block_mapping_changed`. -/
def tablesChanged (ni : NmbmInstance) : Bool :=
  ni.blockStateChanged ≠ 0 || ni.blockMappingChanged ≠ 0

/-- `nmbm_generate_info_table_cache`. -/
def nmbmGenerateInfoTableCache (d : NmbmDesc) (ni : NmbmInstance) : Bool × NmbmInstance :=
  let cache : Nat → UInt8 := fun a => if a < d.infoTableSize then 0xff else ni.infoTableCache a
  let cache := putWords cache ni.infoTable.stateTableOff d.stateWords ni.blockState
  let cache := putWords cache ni.infoTable.mappingTableOff d.blockCount ni.blockMapping
  let changed := tablesChanged ni
  let hdr := { ni.infoTable with
    magic := nmbmMagicInfoTable
    version := nmbmVer
    size := d.infoTableSize
    writeCount :=
      if changed then (ni.infoTable.writeCount + 1) % 2 ^ 32 else ni.infoTable.writeCount }
  (changed, { ni with
    infoTable := hdr
    infoTableCache := nmbmUpdateChecksum (putInfoTableHeader cache hdr) })

/-- `nmbm_mark_tables_clean`. -/
def nmbmMarkTablesClean (ni : NmbmInstance) : NmbmInstance :=
  { ni with blockStateChanged := 0, blockMappingChanged := 0 }

end Lede.Nmbm
