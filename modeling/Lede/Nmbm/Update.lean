/-
Lede.Nmbm.Update — the routines that keep the two info tables on the chip up to
date, the spare allocator, and the operations of the back end.

The management area begins at `mgmt_start_ba`. From there upwards lie the main
table, a gap, the backup table, unmapped spare blocks
(`mapping_blocks_ba .. mapping_blocks_top_ba`), spare blocks handed out from the
top, and the signature.

Three loops of the source count a block address down until a write succeeds.
They run over `write_ba .. mapping_blocks_ba`, and a table ends before
`mapping_blocks_ba`, so that address is not 0 and does not wrap.

`nmbm_update_info_table` repeats until nothing is marked as changed. A round
that leaves something changed has found a new bad block, so the number of good
blocks bounds the rounds (`updateFuel`).
-/
import Lede.Nmbm.Io

namespace Lede.Nmbm

open Lede.Nand Lede.Bmt Lede.Lib

section Update

variable (d : NmbmDesc) (dev : LowerDev)

/-! ## Writing one table -/

/-- The loop of the rescue routines: try `write_ba`, then the blocks below it
down to `lo`, `n` of them left. -/
def writeDownward : Nat → Nat → Attached → Option (Nat × Nat) × Attached
  | 0, _, s => (none, s)
  | n + 1, ba, s =>
    match nmbmWriteInfoTable d dev s ba s.tbl.mappingBlocksTopBa with
    | (some t, s) => (some t, s)
    | (none, s) => writeDownward n (ba - 1) s

/-- Set the marks that nothing is to be written, over the chip as it is. -/
def markClean (s : Attached) : Attached := { s with tbl := nmbmMarkTablesClean s.tbl }

/-- Record `main_table_ba`, `backup_table_ba` and `mapping_blocks_ba`. -/
def moveTables (s : Attached) (main backup ba : Nat) : Attached :=
  { s with tbl := { s.tbl with mainTableBa := main, backupTableBa := backup, mappingBlocksBa := ba } }

/-- `ni->protected = 1`. -/
def protect (s : Attached) : Attached := { s with tbl := { s.tbl with readOnly := true } }

/-- `mapping_blocks_top_ba - size2blk(info_table_size)`, the highest start of a
table. -/
def lastTableStart (s : Attached) : Nat := subU32 s.tbl.mappingBlocksTopBa d.infoBlks

/-- `nmbm_rebuild_info_table` once the main table is written and ends at `stop`:
write the backup table behind it. -/
def writeBackupBehind (s : Attached) (stop : Nat) : Attached :=
  match nmbmTryReserveBlocks d s.tbl stop d.infoTableSpareBlocks (lastTableStart d s) with
  | none => s
  | some next =>
    match nmbmWriteInfoTable d dev s next s.tbl.mappingBlocksTopBa with
    | (none, s) => s
    | (some (start', stop'), s) =>
      nmbmEraseRange d dev (moveTables s s.tbl.mainTableBa start' stop') stop start'

/-- `nmbm_rebuild_info_table`. -/
def nmbmRebuildInfoTable (s : Attached) : Bool × Attached :=
  let s := moveTables s 0 0 s.tbl.mappingBlocksTopBa
  match nmbmWriteInfoTable d dev s s.tbl.mgmtStartBa s.tbl.mappingBlocksTopBa with
  | (none, s) => (false, protect s)
  | (some (start, stop), s) => (true, writeBackupBehind d dev (markClean (moveTables s start 0 stop)) stop)

/-- `nmbm_rescue_single_info_table`. -/
def nmbmRescueSingleInfoTable (s : Attached) : Bool × Attached :=
  match nmbmWriteInfoTable d dev s s.tbl.mgmtStartBa s.tbl.mainTableBa with
  | (some (start, stop), s) =>
    -- the table that exists becomes the backup table
    let s := markClean (moveTables s start s.tbl.mainTableBa s.tbl.mappingBlocksBa)
    (true, nmbmEraseRange d dev s stop s.tbl.backupTableBa)
  | (none, s) =>
    match nmbmTryReserveBlocks d s.tbl s.tbl.mappingBlocksBa d.infoTableSpareBlocks
        (lastTableStart d s) with
    | none => (false, s)
    | some writeBa =>
      match writeDownward d dev (writeBa + 1 - s.tbl.mappingBlocksBa) writeBa s with
      | (none, s) => (false, s)
      | (some (start, stop), s) =>
        let s := nmbmEraseRange d dev s s.tbl.mappingBlocksBa start
        (true, markClean (moveTables s s.tbl.mainTableBa start stop))

/-- `nmbm_update_single_info_table`. -/
def nmbmUpdateSingleInfoTable (s : Attached) (updateMainTable : Bool) : Bool × Attached :=
  if updateMainTable then
    match nmbmWriteInfoTable d dev s s.tbl.mainTableBa s.tbl.backupTableBa with
    | (some (start, _), s) =>
      (true, markClean (moveTables s start s.tbl.backupTableBa s.tbl.mappingBlocksBa))
    | (none, s) =>
      nmbmRescueSingleInfoTable d dev (moveTables s s.tbl.backupTableBa 0 s.tbl.mappingBlocksBa)
  else
    match nmbmWriteInfoTable d dev s s.tbl.backupTableBa s.tbl.mappingBlocksTopBa with
    | (some (start, stop), s) => (true, markClean (moveTables s s.tbl.mainTableBa start stop))
    | (none, s) => (false, moveTables s s.tbl.mainTableBa 0 s.tbl.backupTableBa)

/-- The exits of `nmbm_rescue_main_info_table` without a new table: the backup
table becomes the main table. -/
def backupToMain (s : Attached) : Attached :=
  moveTables s s.tbl.backupTableBa 0 s.tbl.mappingBlocksBa

/-- `nmbm_rescue_main_info_table`. The main table is written below the temporary
table, so it ends at or before it and the source's part for an overwritten
temporary table is never reached. -/
def nmbmRescueMainInfoTable (s : Attached) : Bool × Attached :=
  match nmbmTryReserveBlocks d s.tbl s.tbl.mappingBlocksBa d.infoTableSpareBlocks
      (lastTableStart d s) with
  | none => (true, backupToMain s)
  | some writeBa =>
    match writeDownward d dev (writeBa + 1 - s.tbl.mappingBlocksBa) writeBa s with
    | (none, s) => (true, backupToMain s)
    | (some (tmpStart, tmpStop), s) =>
      match nmbmWriteInfoTable d dev s s.tbl.mgmtStartBa tmpStart with
      | (none, s) => (true, markClean (moveTables s tmpStart 0 tmpStop))
      | (some (start, _), s) => (true, markClean (moveTables s start tmpStart tmpStop))

/-- `write_main_table` of `nmbm_update_info_table_once`. -/
def writeMainTable (s : Attached) (limit : Nat) : Bool × Attached :=
  if s.tbl.mainTableBa = 0 then nmbmRebuildInfoTable d dev s
  else
    match nmbmWriteInfoTable d dev s s.tbl.mainTableBa limit with
    | (none, s) =>
      if s.tbl.backupTableBa = 0 then nmbmRebuildInfoTable d dev s
      else nmbmRescueMainInfoTable d dev s
    | (some (start, stop), s) =>
      (true, markClean (moveTables s start s.tbl.backupTableBa
        (if s.tbl.backupTableBa = 0 then stop else s.tbl.mappingBlocksBa)))

/-- `nmbm_update_info_table_once` with the new image in the cache: the backup table
first, then the main table. -/
def writeBothTables (s : Attached) : Bool × Attached :=
  if s.tbl.backupTableBa = 0 then writeMainTable d dev s s.tbl.mappingBlocksTopBa
  else
    match nmbmWriteInfoTable d dev s s.tbl.backupTableBa s.tbl.mappingBlocksTopBa with
    | (none, s) =>
      let s := moveTables s s.tbl.mainTableBa 0 s.tbl.backupTableBa
      writeMainTable d dev s s.tbl.mappingBlocksTopBa
    | (some (start, stop), s) =>
      writeMainTable d dev (markClean (moveTables s s.tbl.mainTableBa start stop)) start

/-- `nmbm_generate_info_table_cache`, over the chip as it is. -/
def generateCache (s : Attached) : Attached := { s with tbl := (nmbmGenerateInfoTableCache d s.tbl).2 }

/-- `nmbm_update_info_table_once`. -/
def nmbmUpdateInfoTableOnce (s : Attached) (force : Bool) : Bool × Attached :=
  if !(nmbmGenerateInfoTableCache d s.tbl).1 && !force then (true, generateCache d s)
  else writeBothTables d dev (generateCache d s)

/-! ## The update loop -/

/-- Good blocks of the chip. -/
def goodCount (ni : NmbmInstance) : Nat := (List.range d.blockCount).countP (isGood ni)

/-- The loop of `nmbm_update_info_table`, at most `n` rounds. -/
def updateLoop : Nat → Attached → Bool × Attached
  | 0, s => (false, s)
  | n + 1, s =>
    if !tablesChanged s.tbl then (true, s)
    else
      match nmbmUpdateInfoTableOnce d dev s false with
      | (false, s) => (false, s)
      | (true, s) => updateLoop n s

/-- `nmbm_update_info_table`. -/
def nmbmUpdateInfoTable (s : Attached) : Bool × Attached :=
  if s.tbl.readOnly then (true, s) else updateLoop d dev (goodCount d s.tbl + 2) s

/-! ## Mapping a block -/

/-- `ni->block_mapping[lb] = pb`, and the boundary one block down. -/
def handOut (s : Attached) (lb pb : Nat) : Attached :=
  { s with tbl := { s.tbl with
    blockMapping := fun i => if i = lb then BitVec.ofNat 32 pb else s.tbl.blockMapping i
    mappingBlocksTopBa := s.tbl.mappingBlocksTopBa - 1
    blockMappingChanged := s.tbl.blockMappingChanged + 1 } }

/-- `ni->mapping_blocks_top_ba = ni->mapping_blocks_ba`: no spare blocks left. -/
def giveUpSpares (s : Attached) : Attached :=
  { s with tbl := { s.tbl with mappingBlocksTopBa := s.tbl.mappingBlocksBa } }

/-- `nmbm_map_block`. -/
def nmbmMapBlock (s : Attached) (lb : Nat) : Bool × Attached :=
  if s.tbl.mappingBlocksBa = s.tbl.mappingBlocksTopBa then (false, s)
  else
    match nmbmBlockWalkDesc d s.tbl s.tbl.mappingBlocksTopBa 0 s.tbl.mappingBlocksBa with
    | none => (false, giveUpSpares (nmbmUpdateInfoTable d dev s).2)
    | some pb => (true, handOut s lb pb)

/-- The data of a remapped block: erase the new block and copy the first `copyLen`
bytes of the old one. Errors are not looked at. -/
def moveData (fl : Flash) (newBlock mappedBlock copyLen : Nat) : Flash :=
  let fl := (bbtNandErase d.toBmtDesc dev fl newBlock).2
  if copyLen > 0 then (bbtNandCopy d.toBmtDesc dev fl newBlock mappedBlock copyLen).2 else fl

/-- `remap_block_nmbm`. -/
def remapBlockNmbm (s : Attached) (block mappedBlock copyLen : Nat) : Bool × Attached :=
  if block ≥ s.tbl.dataBlockCount then (false, s)
  else
    match nmbmMapBlock d dev (setBad s mappedBlock) block with
    | (false, s) => (false, s)
    | (true, s) =>
      let newBlock := (s.tbl.blockMapping block).toNat
      let fl := moveData d dev s.flash newBlock mappedBlock copyLen
      (true, (nmbmUpdateInfoTable d dev (withFlash s fl)).2)

/-- `get_mapping_block_index_nmbm`; a negative entry is an error as well. -/
def getMappingBlockIndexNmbm (ni : NmbmInstance) (block : Nat) : Option Nat :=
  if block ≥ ni.dataBlockCount then none
  else if (ni.blockMapping block).toInt < 0 then none
  else some (ni.blockMapping block).toNat

end Update

end Lede.Nmbm
