/-
Lede.Nmbm.Io — page and block access of `mtk_bmt_nmbm.c`, and the routines that
write over a range of blocks.

Every access is tried `NMBM_TRY_COUNT` times. A page is verified right after it
was written; a read that succeeds delivers the page, so a write that passes its
check has stored its bytes whatever the chip did in between.

`nmbm_read_phys_page` returns a positive value for a page with corrected
bitflips. No caller tells that value from 0, so a read either delivers the page
or fails (`PhysRead`).
-/
import Lede.Nmbm.Tables

namespace Lede.Nmbm

open Lede.Nand Lede.Bmt Lede.Lib

/-! ## Pages and blocks -/

/-- What `nmbm_read_phys_page` reports. -/
inductive PhysRead where
  | ok
  | ebadmsg
  | eio
  deriving DecidableEq, Repr

section Phys

variable (d : NmbmDesc) (dev : LowerDev)

/-- `nmbm_read_phys_page`, with `n + 1` tries left. -/
def readPhysPage : Nat → Flash → Nat → PhysRead × Flash
  | n, fl, pg =>
    let (ret, _, fl) := lowerRead dev fl pg
    match ret with
    | .ok _ | .euclean => (.ok, fl)
    | .ebadmsg =>
      match n with
      | 0 => (.ebadmsg, fl)
      | n + 1 => readPhysPage n fl pg
    | .eio =>
      match n with
      | 0 => (.eio, fl)
      | n + 1 => readPhysPage n fl pg

/-- `nmbm_read_phys_page`. -/
def nmbmReadPhysPage (fl : Flash) (pg : Nat) : PhysRead × Flash :=
  readPhysPage dev (nmbmTryCount - 1) fl pg

/-- `nmbm_write_phys_page`, with `n` tries left. -/
def writePhysPage (content : Page) : Nat → Flash → Nat → Bool × Flash
  | 0, fl, _ => (false, fl)
  | n + 1, fl, pg =>
    let (ok, fl) := lowerWrite dev fl pg content
    if ok then (true, fl) else writePhysPage content n fl pg

/-- `nmbm_write_phys_page`. -/
def nmbmWritePhysPage (fl : Flash) (pg : Nat) (content : Page) : Bool × Flash :=
  writePhysPage dev content nmbmTryCount fl pg

/-- `nmbm_erase_phys_block`, with `n` tries left. -/
def erasePhysBlock : Nat → Flash → Nat → Bool × Flash
  | 0, fl, _ => (false, fl)
  | n + 1, fl, ba =>
    let (ok, fl) := lowerErase d.toGeometry dev fl ba
    if ok then (true, fl) else erasePhysBlock n fl ba

/-- `nmbm_erase_phys_block`. -/
def nmbmErasePhysBlock (fl : Flash) (ba : Nat) : Bool × Flash :=
  erasePhysBlock d dev nmbmTryCount fl ba

/-- The page loop of `nmbm_erase_block_and_check`, with `n` pages left. -/
def checkEmptyPages : Nat → Nat → Flash → Bool × Flash
  | 0, _, fl => (true, fl)
  | n + 1, pg, fl =>
    let (ret, fl) := nmbmReadPhysPage dev fl pg
    if ret = .ebadmsg then (false, fl) else checkEmptyPages n (pg + 1) fl

/-- `nmbm_erase_block_and_check`. -/
def nmbmEraseBlockAndCheck (fl : Flash) (ba : Nat) : Bool × Flash :=
  let (ok, fl) := nmbmErasePhysBlock d dev fl ba
  if !ok then (false, fl)
  else if !d.emptyPageEccOk then (true, fl)
  else checkEmptyPages dev d.ppb (d.blkPg ba) fl

/-- Byte `i` of a page; `nmbm` reads and writes whole pages of `pg_size` bytes. -/
def pageByte (fl : Flash) (pg i : Nat) : UInt8 := (fl.page pg).data.getD i 0xff

/-- Byte `i` of the pages from the first page of block `ba` on. -/
def blockByte (fl : Flash) (ba i : Nat) : UInt8 :=
  pageByte fl (d.blkPg ba + i / d.pgSize) (i % d.pgSize)

/-- The page cache as it is written: `size` bytes of data, the rest `0xff`. -/
def pageImage (dat : Nat → UInt8) (size : Nat) : Page where
  data := (List.range d.pgSize).map fun i => if i < size then dat i else 0xff
  oob := []

/-- Write a page and verify its first `size` bytes. -/
def writeVerifyPage (fl : Flash) (pg : Nat) (dat : Nat → UInt8) (size : Nat) : Bool × Flash :=
  let (ok, fl) := nmbmWritePhysPage dev fl pg (pageImage d dat size)
  if !ok then (false, fl)
  else
    let (ret, fl) := nmbmReadPhysPage dev fl pg
    if ret ≠ .ok then (false, fl)
    else ((List.range size).all fun i => pageByte fl pg i == dat i, fl)

/-- The loop of `nmbn_write_verify_data` from a page boundary on, with `n` pages
left and `size` bytes to be written. -/
def writeVerifyLoop : Nat → Nat → (Nat → UInt8) → Nat → Flash → Bool × Flash
  | 0, _, _, _, fl => (true, fl)
  | n + 1, pg, dat, size, fl =>
    let chunk := min d.pgSize size
    let (ok, fl) := writeVerifyPage d dev fl pg dat chunk
    if !ok then (false, fl)
    else writeVerifyLoop n (pg + 1) (fun i => dat (d.pgSize + i)) (size - chunk) fl

/-- `nmbn_write_verify_data` at the start of block `ba`. -/
def nmbnWriteVerifyData (fl : Flash) (ba : Nat) (dat : Nat → UInt8) (size : Nat) : Bool × Flash :=
  writeVerifyLoop d dev ((size + d.pgSize - 1) / d.pgSize) (d.blkPg ba) dat size fl

/-- The loop of `nmbn_read_data`: every page in turn, until one fails. -/
def readLoop : Nat → Nat → Flash → PhysRead × Flash
  | 0, _, fl => (.ok, fl)
  | n + 1, pg, fl =>
    let (ret, fl) := nmbmReadPhysPage dev fl pg
    if ret ≠ .ok then (ret, fl) else readLoop n (pg + 1) fl

/-- `nmbn_read_data` of `size` bytes from a page boundary on. The bytes are those
of the pages read. -/
def nmbnReadData (fl : Flash) (pg size : Nat) : PhysRead × Flash :=
  readLoop dev ((size + d.pgSize - 1) / d.pgSize) pg fl

/-- The page loop of `nmbm_write_repeated_data`, with `n` pages left. -/
def writeRepeatedLoop (dat : Nat → UInt8) (size : Nat) : Nat → Nat → Flash → Bool × Flash
  | 0, _, fl => (true, fl)
  | n + 1, pg, fl =>
    let (ok, fl) := writeVerifyPage d dev fl pg dat size
    if !ok then (false, fl) else writeRepeatedLoop dat size n (pg + 1) fl

/-- `nmbm_write_repeated_data`. -/
def nmbmWriteRepeatedData (fl : Flash) (ba : Nat) (dat : Nat → UInt8) (size : Nat) : Bool × Flash :=
  if size > d.pgSize then (false, fl) else writeRepeatedLoop d dev dat size d.ppb (d.blkPg ba) fl

end Phys

/-! ## Ranges of blocks -/

section Range

variable (d : NmbmDesc) (dev : LowerDev)

/-- `nmbm_set_block_state(ni, ba, BLOCK_ST_BAD)`, over the chip as it is. -/
def setBad (s : Attached) (ba : Nat) : Attached :=
  { s with tbl := setBlockState s.tbl ba blockStBad }

/-- `nmbm_mark_phys_bad_block` and the mark in memory. -/
def markBad (s : Attached) (ba : Nat) : Attached :=
  setBad { s with flash := lowerMarkbad s.flash ba } ba

/-- The chip after an access, the instance as it was. -/
def withFlash (s : Attached) (fl : Flash) : Attached := { s with flash := fl }

/-- `nmbm_scan_badblocks`, from block `ba` on. -/
def scanLoop : Nat → Nat → Attached → Attached
  | 0, _, s => s
  | n + 1, ba, s =>
    let (bad, fl) := lowerIsbad dev s.flash ba
    let s := withFlash s fl
    scanLoop n (ba + 1) (if bad then setBad s ba else s)

/-- `nmbm_scan_badblocks`. -/
def nmbmScanBadblocks (s : Attached) : Attached := scanLoop dev d.blockCount 0 s

/-- The loop of `nmbm_erase_range`, with `n` blocks left before the limit. -/
def eraseRangeLoop : Nat → Nat → Attached → Attached
  | 0, _, s => s
  | n + 1, ba, s =>
    if !isGood s.tbl ba then eraseRangeLoop n (ba + 1) s
    else
      let (bad, fl) := lowerIsbad dev s.flash ba
      let s := withFlash s fl
      if bad then eraseRangeLoop n (ba + 1) (setBad s ba)
      else
        let (ok, fl) := nmbmEraseBlockAndCheck d dev s.flash ba
        let s := withFlash s fl
        eraseRangeLoop n (ba + 1) (if ok then s else markBad s ba)

/-- `nmbm_erase_range`. -/
def nmbmEraseRange (s : Attached) (ba limit : Nat) : Attached :=
  eraseRangeLoop d dev (limit - ba) ba s

/-- The loop of `nmbm_write_signature`, over the `n` blocks from `ba` down. -/
def writeSignatureLoop (sig : Nat → UInt8) : Nat → Nat → Attached → Option Nat × Attached
  | 0, _, s => (none, s)
  | n + 1, ba, s =>
    if !isGood s.tbl ba then writeSignatureLoop sig n (ba - 1) s
    else
      let (bad, fl) := lowerIsbad dev s.flash ba
      let s := withFlash s fl
      if bad then writeSignatureLoop sig n (ba - 1) (setBad s ba)
      else
        let (ok, fl) := nmbmEraseBlockAndCheck d dev s.flash ba
        let s := withFlash s fl
        if !ok then writeSignatureLoop sig n (ba - 1) (markBad s ba)
        else
          let (ok, fl) := nmbmWriteRepeatedData d dev s.flash ba sig 48
          let s := withFlash s fl
          if ok then (some ba, s) else writeSignatureLoop sig n (ba - 1) (markBad s ba)

/-- `nmbm_write_signature`. -/
def nmbmWriteSignature (s : Attached) (limit : Nat) (sig : Nat → UInt8) : Option Nat × Attached :=
  writeSignatureLoop d dev sig (d.blockCount - 1 - limit) (d.blockCount - 1) s

/-- The loop of `nmbm_write_mgmt_range`, with `n` blocks left before the limit
and `rest` bytes left of the `size` bytes at `dat`; `start` is
`*actual_start_ba`. -/
def writeMgmtLoop (dat : Nat → UInt8) (size : Nat) :
    Nat → Nat → Nat → Nat → Attached → Option (Nat × Nat) × Attached
  | 0, ba, rest, start, s => if rest = 0 then (some (start, ba), s) else (none, s)
  | n + 1, ba, rest, start, s =>
    if rest = 0 then (some (start, ba), s)
    else if !isGood s.tbl ba then writeMgmtLoop dat size n (ba + 1) rest start s
    else
      let (bad, fl) := lowerIsbad dev s.flash ba
      let s := withFlash s fl
      if bad then writeMgmtLoop dat size n (ba + 1) rest start (setBad s ba)
      else
        let (ok, fl) := nmbmEraseBlockAndCheck d dev s.flash ba
        let s := withFlash s fl
        if !ok then writeMgmtLoop dat size n (ba + 1) rest start (markBad s ba)
        else
          let chunk := min rest d.blkSize
          let (ok, fl) := nmbnWriteVerifyData d dev s.flash ba (fun i => dat (size - rest + i)) chunk
          let s := withFlash s fl
          if !ok then writeMgmtLoop dat size n (ba + 1) rest start (markBad s ba)
          else writeMgmtLoop dat size n (ba + 1) (rest - chunk) (if rest = size then ba else start) s

/-- `nmbm_write_info_table`: `nmbm_write_mgmt_range` of the table in the cache;
the blocks it was written to. -/
def nmbmWriteInfoTable (s : Attached) (ba limit : Nat) : Option (Nat × Nat) × Attached :=
  writeMgmtLoop d dev s.tbl.infoTableCache d.infoTableSize (limit - ba) ba d.infoTableSize 0 s

end Range

end Lede.Nmbm
