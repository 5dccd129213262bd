/-
Lede.Nmbm.Loops — `nmbm_update_info_table` with the loops of the source.

The modules below compute what the routines do by recursion over the blocks that are left, so
they end by construction. Here the same routines are relations over the `while` loops as the
source has them, with the tests, the steps and the `u32` decrement of the source and no bound:
a pair is in a relation if a finite run of the routine takes it there. The accesses to a block
are those of `Io`; their loops count pages or tries.
-/
import Lede.Lib.Loops
import Lede.Nmbm.Update

namespace Lede.Nmbm

open Lede.Nand Lede.Bmt Lede.Lib.Loops

/-! ## Loops -/

section Loops

variable (d : NmbmDesc) (dev : LowerDev)

/-- `while (ba < limit)` of `nmbm_block_walk_asc`. -/
def walkAscStep (ni : NmbmInstance) (limit : Nat) : Nat × Int → (Nat × Int) ⊕ Option Nat
  | (ba, nblock) =>
    if ba < limit then
      let nblock := if isGood ni ba then nblock - 1 else nblock
      if nblock < 0 then .inr (some ba) else .inl (ba + 1, nblock)
    else .inr none

/-- `nmbm_block_walk_asc`. -/
def BlockWalkAsc (ni : NmbmInstance) (ba : Nat) (count : Int) (limit : Nat) (r : Option Nat) : Prop :=
  let limit := if limit ≥ d.blockCount then d.blockCount - 1 else limit
  Leaves (fun s x => x = walkAscStep ni limit s) (ba, count) r

/-- `while (nblocks >= min_count)` of `nmbm_try_reserve_blocks`, with `min_count` 0. -/
def ReserveBody (ni : NmbmInstance) (ba limit : Nat) (nblocks : Int) (x : Int ⊕ Option Nat) : Prop :=
  if 0 ≤ nblocks then
    ∃ r, BlockWalkAsc d ni ba nblocks limit r ∧
      x = match r with
        | some nba => .inr (some nba)
        | none => .inl (nblocks - 1)
  else x = .inr none

/-- `nmbm_try_reserve_blocks`. -/
def TryReserveBlocks (ni : NmbmInstance) (ba count limit : Nat) (r : Option Nat) : Prop :=
  Leaves (ReserveBody d ni ba limit) (count : Int) r

/-- `while (ba < limit)` of `nmbm_erase_range`. -/
def eraseRangeStep (limit : Nat) : Nat × Attached → (Nat × Attached) ⊕ Attached
  | (ba, s) =>
    if ba < limit then
      if !isGood s.tbl ba then .inl (ba + 1, s)
      else
        let (bad, fl) := lowerIsbad dev s.flash ba
        let s := withFlash s fl
        if bad then .inl (ba + 1, setBad s ba)
        else
          let (ok, fl) := nmbmEraseBlockAndCheck d dev s.flash ba
          let s := withFlash s fl
          .inl (ba + 1, if ok then s else markBad s ba)
    else .inr s

/-- `nmbm_erase_range`. -/
def EraseRange (s : Attached) (ba limit : Nat) (s' : Attached) : Prop :=
  Leaves (fun p x => x = eraseRangeStep d dev limit p) (ba, s) s'

/-- The variables of `nmbm_write_mgmt_range`: `ba`, `sizeremain`, `*actual_start_ba`. -/
structure MgmtVars where
  ba : Nat
  rest : Nat
  start : Nat
  s : Attached

/-- `while (sizeremain && ba < limit)` of `nmbm_write_mgmt_range`. -/
def writeMgmtStep (dat : Nat → UInt8) (size limit : Nat) (v : MgmtVars) :
    MgmtVars ⊕ (Option (Nat × Nat) × Attached) :=
  if v.rest ≠ 0 ∧ v.ba < limit then
    if !isGood v.s.tbl v.ba then .inl { v with ba := v.ba + 1 }
    else
      let (bad, fl) := lowerIsbad dev v.s.flash v.ba
      let s := withFlash v.s fl
      if bad then .inl { v with ba := v.ba + 1, s := setBad s v.ba }
      else
        let (ok, fl) := nmbmEraseBlockAndCheck d dev s.flash v.ba
        let s := withFlash s fl
        if !ok then .inl { v with ba := v.ba + 1, s := markBad s v.ba }
        else
          let chunk := min v.rest d.blkSize
          let (ok, fl) := nmbnWriteVerifyData d dev s.flash v.ba (fun i => dat (size - v.rest + i)) chunk
          let s := withFlash s fl
          if !ok then .inl { v with ba := v.ba + 1, s := markBad s v.ba }
          else
            .inl { ba := v.ba + 1, rest := v.rest - chunk,
                   start := if v.rest = size then v.ba else v.start, s := s }
  else .inr (if v.rest = 0 then some (v.start, v.ba) else none, v.s)

/-- `nmbm_write_info_table`. -/
def WriteInfoTable (s : Attached) (ba limit : Nat) (r : Option (Nat × Nat) × Attached) : Prop :=
  Leaves (fun v x => x = writeMgmtStep d dev s.tbl.infoTableCache d.infoTableSize limit v)
    ⟨ba, d.infoTableSize, 0, s⟩ r

/-- `while (write_ba >= lo)` of the rescue routines: try `write_ba`, and count it down. The block
that was reserved is not below `lo`, so the loop does not end before the first try. -/
def DownwardBody (lo : NmbmInstance → Nat) : Nat × Attached →
    (Nat × Attached) ⊕ (Option (Nat × Nat) × Attached) → Prop
  | (writeBa, s), x =>
    if lo s.tbl ≤ writeBa then
      ∃ r, WriteInfoTable d dev s writeBa s.tbl.mappingBlocksTopBa r ∧
        x = match r with
          | (some t, s) => .inr (some t, s)
          | (none, s) => .inl (subU32 writeBa 1, s)
    else x = .inr (none, s)

end Loops

/-! ## Routines -/

section Routines

variable (d : NmbmDesc) (dev : LowerDev)

/-- `nmbm_rebuild_info_table` once the main table is written and ends at `stop`. -/
def BackupBehind (s : Attached) (stop : Nat) (s' : Attached) : Prop :=
  ∃ next, TryReserveBlocks d s.tbl stop d.infoTableSpareBlocks (lastTableStart d s) next ∧
    match next with
    | none => s' = s
    | some next =>
      ∃ w, WriteInfoTable d dev s next s.tbl.mappingBlocksTopBa w ∧
        match w with
        | (none, s) => s' = s
        | (some (start', stop'), s) =>
          EraseRange d dev (moveTables s s.tbl.mainTableBa start' stop') stop start' s'

/-- `nmbm_rebuild_info_table`. -/
def RebuildInfoTable (s : Attached) (r : Bool × Attached) : Prop :=
  ∃ w, WriteInfoTable d dev (moveTables s 0 0 s.tbl.mappingBlocksTopBa) s.tbl.mgmtStartBa
      s.tbl.mappingBlocksTopBa w ∧
    match w with
    | (none, s) => r = (false, protect s)
    | (some (start, stop), s) =>
      ∃ s', BackupBehind d dev (markClean (moveTables s start 0 stop)) stop s' ∧ r = (true, s')

/-- The end of `nmbm_rescue_main_info_table` for a main table `start .. stop - 1` that overwrote
the temporary one. -/
def RewriteBackup (s : Attached) (start stop : Nat) (r : Bool × Attached) : Prop :=
  ∃ writeBa, TryReserveBlocks d s.tbl stop d.infoTableSpareBlocks (lastTableStart d s) writeBa ∧
    match writeBa with
    | none => r = (true, moveTables s start 0 stop)
    | some writeBa =>
      ∃ w, Leaves (DownwardBody d dev fun _ => stop) (writeBa, s) w ∧
        match w with
        | (none, s) => r = (true, moveTables s start 0 stop)
        | (some (tmpStart, tmpStop), s) =>
          ∃ s', EraseRange d dev (moveTables s start tmpStart tmpStop) stop tmpStart s' ∧ r = (true, s')

/-- `nmbm_rescue_main_info_table`. -/
def RescueMainInfoTable (s : Attached) (r : Bool × Attached) : Prop :=
  ∃ writeBa, TryReserveBlocks d s.tbl s.tbl.mappingBlocksBa d.infoTableSpareBlocks
      (lastTableStart d s) writeBa ∧
    match writeBa with
    | none => r = (true, backupToMain s)
    | some writeBa =>
      ∃ w, Leaves (DownwardBody d dev fun ni => ni.mappingBlocksBa) (writeBa, s) w ∧
        match w with
        | (none, s) => r = (true, backupToMain s)
        | (some (tmpStart, tmpStop), s) =>
          ∃ w, WriteInfoTable d dev s s.tbl.mgmtStartBa tmpStart w ∧
            match w with
            | (none, s) => r = (true, markClean (moveTables s tmpStart 0 tmpStop))
            | (some (start, stop), s) =>
              if stop ≤ tmpStart then r = (true, markClean (moveTables s start tmpStart tmpStop))
              else
                RewriteBackup d dev (markClean (moveTables s start s.tbl.backupTableBa stop)) start
                  stop r

/-- `write_main_table` of `nmbm_update_info_table_once`. -/
def WriteMainTable (s : Attached) (limit : Nat) (r : Bool × Attached) : Prop :=
  if s.tbl.mainTableBa = 0 then RebuildInfoTable d dev s r
  else
    ∃ w, WriteInfoTable d dev s s.tbl.mainTableBa limit w ∧
      match w with
      | (none, s) =>
        if s.tbl.backupTableBa = 0 then RebuildInfoTable d dev s r else RescueMainInfoTable d dev s r
      | (some (start, stop), s) =>
        r = (true, markClean (moveTables s start s.tbl.backupTableBa
          (if s.tbl.backupTableBa = 0 then stop else s.tbl.mappingBlocksBa)))

/-- `nmbm_update_info_table_once` with the new image in the cache. -/
def WriteBothTables (s : Attached) (r : Bool × Attached) : Prop :=
  if s.tbl.backupTableBa = 0 then WriteMainTable d dev s s.tbl.mappingBlocksTopBa r
  else
    ∃ w, WriteInfoTable d dev s s.tbl.backupTableBa s.tbl.mappingBlocksTopBa w ∧
      match w with
      | (none, s) =>
        WriteMainTable d dev (moveTables s s.tbl.mainTableBa 0 s.tbl.backupTableBa)
          s.tbl.mappingBlocksTopBa r
      | (some (start, stop), s) =>
        WriteMainTable d dev (markClean (moveTables s s.tbl.mainTableBa start stop)) start r

/-- `nmbm_update_info_table_once`. -/
def UpdateInfoTableOnce (s : Attached) (force : Bool) (r : Bool × Attached) : Prop :=
  if !(nmbmGenerateInfoTableCache d s.tbl).1 && !force then r = (true, generateCache d s)
  else WriteBothTables d dev (generateCache d s) r

/-- `while (ni->block_state_changed || ni->block_mapping_changed)` of
`nmbm_update_info_table`. -/
def UpdateBody (s : Attached) (x : Attached ⊕ (Bool × Attached)) : Prop :=
  if tablesChanged s.tbl then
    ∃ r, UpdateInfoTableOnce d dev s false r ∧
      x = match r with
        | (false, s) => .inr (false, s)
        | (true, s) => .inl s
  else x = .inr (true, s)

/-- `nmbm_update_info_table`. -/
def UpdateInfoTable (s : Attached) (r : Bool × Attached) : Prop :=
  if s.tbl.readOnly then r = (true, s) else Leaves (UpdateBody d dev) s r

end Routines

end Lede.Nmbm
