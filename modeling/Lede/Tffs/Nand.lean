/-
Lede.Tffs.Nand — the reader of a TFFS on NAND flash
(`package/utils/fritz-tools/src/fritz_tffs_nand_read.c`).

A block of the flash starts with a header, which lists bad sectors; every other sector holds a
segment of an entry until the first unused one. An entry is found by a pass over all sectors that
collects the segments of its newest revision; the ids that a pass has read are kept, and later
passes skip the sectors of other ids.

The flash is what its sectors and their out-of-band bytes read as, `none` where a read fails.
Memory is taken to suffice. Where the program leaves an array, the model stops (`fault`); where it
ends with an error, too (`exit`).
-/
import Lede.Lib.Access
import Lede.Lib.Checksum

namespace Lede.Tffs

open Lede.Lib

/-! ## The flash -/

def TFFS_ID_END : BitVec 32 := 0xffffffff
def TFFS_ID_TABLE_NAME : BitVec 32 := 0x000001ff
def TFFS_BLOCK_HEADER_MAGIC : BitVec 64 := 0x41564d5f54464653
def TFFS_ENTRY_HEADER_SIZE : Nat := 0x18
def TFFS_MAXIMUM_SEGMENT_SIZE : Nat := 0x800 - TFFS_ENTRY_HEADER_SIZE
def TFFS_SECTOR_SIZE : Nat := 0x0800
def TFFS_SECTORS_PER_PAGE : BitVec 32 := 2
def TFFS_SEGMENT_CLEARED : BitVec 32 := 0xffffffff

/-- The width of a pointer and of `size_t`. -/
inductive Word where
  | bits32
  | bits64
deriving DecidableEq, Repr

def Word.modulus : Word → Nat
  | .bits32 => 2 ^ 32
  | .bits64 => 2 ^ 64

/-- `sizeof(struct tffs_entry_segment)`: a length and a pointer -/
def Word.segmentSize : Word → Nat
  | .bits32 => 8
  | .bits64 => 16

/-- A device of whole erase blocks of whole sectors, by the numbers of the sectors, and the options
that the program reads it with. -/
structure Reader where
  word : Word
  endian : Endian
  readOobSectorHealth : Bool
  blocks : Nat
  sectorsPerBlock : Nat
  sectorsPerBlock_pos : 0 < sectorsPerBlock
  size_lt : blocks * sectorsPerBlock * TFFS_SECTOR_SIZE < 2 ^ 32
  sector : Nat → Option (Nat → UInt8)
  oob : Nat → Option (Nat → UInt8)

namespace Reader

variable (t : Reader)

def numSectors : Nat := t.blocks * t.sectorsPerBlock

def blocksize : Nat := t.sectorsPerBlock * TFFS_SECTOR_SIZE

/-- `read_uint32` -/
def readUint32 (buf : Nat → UInt8) (off : Nat) : BitVec 32 := ld32 t.endian buf off

/-- `read_uint64` -/
def readUint64 (buf : Nat → UInt8) (off : Nat) : BitVec 64 :=
  match t.endian with
  | .little => ld32 .little buf (off + 4) ++ ld32 .little buf off
  | .big => ld32 .big buf off ++ ld32 .big buf (off + 4)

/-- A sector is the first of its block. -/
def atBlock (sector : Nat) : Prop := sector * TFFS_SECTOR_SIZE % t.blocksize = 0

instance (sector : Nat) : Decidable (t.atBlock sector) :=
  inferInstanceAs (Decidable (_ = _))

end Reader

/-- How the program stops without an answer. -/
inductive Stop where
  | fault
  | exit
deriving DecidableEq, Repr

/-! ## The scan -/

section Scan

variable (t : Reader)

/-- `check_sector` -/
def checkSector (sector : Nat) : Bool :=
  if t.readOobSectorHealth then
    match t.oob sector with
    | none => false
    | some oob => oob 0x00 = 0xff ∧ oob 0x01 = 0xff
  else true

/-- What `read_sector` leaves in `sector_ids`. -/
def cacheId (ids : Nat → BitVec 32) (sector : Nat) (buf : Nat → UInt8) : Nat → BitVec 32 :=
  Function.update ids sector (t.readUint32 buf 0x00)

/-- `sector_mark_bad`, whose number is an `int`; the array has a bit for each sector and is filled
up to a byte. -/
def sectorMarkBad (good : Nat → Bool) (num : BitVec 32) : Option (Nat → Bool) :=
  if 0 ≤ num.toInt ∧ num.toInt < (t.numSectors + 7) / 8 * 8 then
    some (Function.update good num.toNat false)
  else none

/-- The numbers that the header of a block lists as bad, as the numbers they are marked under. -/
def headerBad (sector : Nat) (buf : Nat → UInt8) : List (BitVec 32) :=
  (List.range (t.readUint32 buf 0x0c).toNat).map fun i =>
    BitVec.ofNat 32 sector + (t.readUint64 buf (0x1c + 8 * i)).setWidth 32

/-- The reads of that from the sector buffer. -/
def headerReads (buf : Nat → UInt8) : List Access :=
  [⟨0x00, 8⟩, ⟨0x0c, 4⟩, ⟨0x0c, 4⟩] ++
    (List.range (t.readUint32 buf 0x0c).toNat).map fun i => ⟨0x1c + 8 * i, 8⟩

/-- What `check_block` returns, the numbers it marks, its reads from the buffer, and the ids after
it. -/
structure CheckBlock where
  ok : Bool
  bad : List (BitVec 32) := []
  reads : List Access := []
  ids : Nat → BitVec 32

/-- `check_block` -/
def checkBlock (ids : Nat → BitVec 32) (sector : Nat) : CheckBlock :=
  if !checkSector t sector then ⟨false, [], [], ids⟩
  else
    match t.sector sector with
    | none => ⟨false, [], [], ids⟩
    | some buf =>
      let ids := cacheId t ids sector buf
      if t.readUint64 buf 0x00 ≠ TFFS_BLOCK_HEADER_MAGIC then ⟨false, [], [⟨0x00, 8⟩], ids⟩
      else if t.readUint32 buf 0x0c ≠ TFFS_SECTORS_PER_PAGE then
        ⟨false, [], [⟨0x00, 8⟩, ⟨0x0c, 4⟩], ids⟩
      else ⟨true, headerBad t sector buf, headerReads t buf, ids⟩

structure Scan where
  good : Nat → Bool
  ids : Nat → BitVec 32
  blockOk : Bool
  validBlocks : Nat

/-- One sector of the loop of `scan_mtd`. -/
def scanSector (st : Scan) (sector : Nat) : Option Scan :=
  if t.atBlock sector then
    let c := checkBlock t st.ids sector
    -- the first sector of the block holds the header and is handled like a bad one
    ((c.bad ++ [BitVec.ofNat 32 sector]).foldlM (sectorMarkBad t) st.good).map fun good =>
      ⟨good, c.ids, c.ok, if c.ok then st.validBlocks + 1 else st.validBlocks⟩
  else if !st.blockOk || !st.good sector || !checkSector t sector then
    (sectorMarkBad t st.good (BitVec.ofNat 32 sector)).map fun good => { st with good }
  else some st

/-- `scan_mtd` -/
def scanMtd : Option Scan :=
  (List.range t.numSectors).foldlM (scanSector t) ⟨fun _ => true, fun _ => 0, false, 0⟩

end Scan

/-! ## The segments of an entry -/

/-- A segment, as its sector has it. -/
structure Segment where
  rev : BitVec 32
  seg : BitVec 32
  nextSeg : BitVec 32
  val : List UInt8
deriving DecidableEq, Repr

/-- `new_num_segs` -/
def Segment.newNumSegs (e : Segment) : Nat :=
  (if e.nextSeg = 0 then e.seg + 1 else e.nextSeg + 1).toNat

/-- The newest revision and its slots; `num_segments` is their number. -/
structure Segments where
  rev : BitVec 32 := 0
  slots : List (Option (List UInt8)) := []
deriving DecidableEq, Repr

section Find

variable (t : Reader)

/-- Where the `memset` of new slots starts and how much it clears. The pointer arithmetic multiplies
by the size of a slot a second time. -/
def memsetNew (num new : Nat) : Access :=
  ⟨num * t.word.segmentSize % t.word.modulus * t.word.segmentSize,
    (new - num) * t.word.segmentSize % t.word.modulus⟩

/-- The array with `new` slots. Where the `memset` does not clear the slots that are new, it clears
what is behind the array or less than the array should have. -/
def growSegments (slots : List (Option (List UInt8))) (new : Nat) :
    Except Stop (List (Option (List UInt8))) :=
  if slots.length < new then
    if memsetNew t slots.length new =
        ⟨slots.length * t.word.segmentSize, (new - slots.length) * t.word.segmentSize⟩ then
      .ok (slots ++ List.replicate (new - slots.length) none)
    else .error .fault
  else .ok slots

/-- `find_entry` on a segment of the entry. -/
def takeSegment (st : Segments) (e : Segment) : Except Stop Segments :=
  if e.rev < st.rev then .ok st
  else
    let st : Segments := if st.rev < e.rev then ⟨e.rev, []⟩ else st
    if e.seg = TFFS_SEGMENT_CLEARED then .ok st
    else
      match growSegments t st.slots e.newNumSegs with
      | .error stop => .error stop
      | .ok slots =>
        if e.seg.toNat < slots.length then
          .ok { st with slots := slots.set e.seg.toNat (some e.val) }
        else .error .fault

/-- The end of `find_entry`: the values one after the other, unless a segment is missing. The
length has 32 bits, and that much memory is taken. -/
def joinSegments (slots : List (Option (List UInt8))) : Except Stop (Option (List UInt8)) :=
  if slots = [] then .ok none
  else
    match slots.mapM id with
    | none => .ok none
    | some vals =>
      if vals.flatten.length < 2 ^ 32 then .ok (some vals.flatten) else .error .fault

/-! ## The lookup -/

/-- The header of a segment agrees with the out-of-band bytes. -/
def oobAgrees (buf oob : Nat → UInt8) : Bool :=
  t.readUint32 oob 0x02 = t.readUint32 buf 0x00 ∧ t.readUint32 oob 0x06 = t.readUint32 buf 0x04 ∧
    t.readUint32 oob 0x0a = t.readUint32 buf 0x0c

/-- The segment in a sector. -/
def segmentOf (buf : Nat → UInt8) : Segment where
  rev := t.readUint32 buf 0x0c
  seg := t.readUint32 buf 0x10
  nextSeg := t.readUint32 buf 0x14
  val := (List.range (t.readUint32 buf 0x04).toNat).map fun i => buf (TFFS_ENTRY_HEADER_SIZE + i)

/-- A pass between two sectors: the rest of the block is unused, and the ids that are known. -/
structure Walk where
  blockEnd : Bool := false
  ids : Nat → BitVec 32

/-- `find_entry` on a sector that it has read: the segment in it, if it is one of the entry. -/
def readEntry (id : BitVec 32) (w : Walk) (buf oob : Nat → UInt8) : Walk × Option Segment :=
  if t.readOobSectorHealth && !oobAgrees t buf oob then (w, none)
  else if t.readUint32 buf 0x00 = TFFS_ID_END then ({ w with blockEnd := true }, none)
  else if TFFS_MAXIMUM_SEGMENT_SIZE < (t.readUint32 buf 0x04).toNat then (w, none)
  else if t.readUint32 buf 0x00 = id then (w, some (segmentOf t buf))
  else (w, none)

/-- The loop of `find_entry` on a sector, up to the segment in it; `none` where it cannot be
read. -/
def visitSector (good : Nat → Bool) (id : BitVec 32) (w : Walk) (sector : Nat) :
    Option (Walk × Option Segment) :=
  if w.blockEnd then some (if t.atBlock sector then { w with blockEnd := false } else w, none)
  else if good sector then
    if w.ids sector ≠ 0 ∧ w.ids sector = TFFS_ID_END then some ({ w with blockEnd := true }, none)
    else if w.ids sector ≠ 0 ∧ w.ids sector ≠ id then some (w, none)
    else
      match t.oob sector, t.sector sector with
      | some oob, some buf =>
        some (readEntry t id { w with ids := cacheId t w.ids sector buf } buf oob)
      | _, _ => none
  else some (w, none)

/-- The loop of `find_entry`. -/
def findSegments (good : Nat → Bool) (id : BitVec 32) :
    List Nat → Walk → Segments → Except Stop (Walk × Segments)
  | [], w, st => .ok (w, st)
  | sector :: rest, w, st =>
    match visitSector t good id w sector with
    | none => .error .exit
    | some (w, none) => findSegments good id rest w st
    | some (w, some e) =>
      match takeSegment t st e with
      | .error stop => .error stop
      | .ok st => findSegments good id rest w st

/-- `find_entry`: the value, if there is one, and the ids after it. -/
def findEntry (good : Nat → Bool) (ids : Nat → BitVec 32) (id : BitVec 32) :
    Except Stop (Option (List UInt8) × (Nat → BitVec 32)) :=
  match findSegments t good id (List.range t.numSectors) { ids := ids } {} with
  | .error stop => .error stop
  | .ok (w, st) => (joinSegments st.slots).map fun val => (val, w.ids)

end Find

/-! ## The table of names -/

/-- `get_walk_size` -/
def getWalkSize (entryLen : Nat) : Nat := (entryLen + 3) / 4 * 4

/-- `strdup` of the string at a position of the table; `none` where it does not end in it. -/
def stringAt (val : List UInt8) (pos : Nat) : Option (List UInt8) :=
  if (val.drop pos).contains 0 then some ((val.drop pos).takeWhile (· ≠ 0)) else none

/-- The loop of `parse_key_names` from a position on; positions have 32 bits. -/
def keyNamesFrom (t : Reader) (val : List UInt8) :
    Nat → Nat → Option (Except Stop (List (BitVec 32 × List UInt8)))
  | 0, _ => none
  | n + 1, pos =>
    if val.length < pos + 4 then some (.error .fault)
    else
      match stringAt val (pos + 4) with
      | none => some (.error .fault)
      | some name =>
        let item := (t.readUint32 (fun i => val.getD i 0) pos, name)
        let next := (pos + 4 + getWalkSize (name.length + 1)) % 2 ^ 32
        if next < val.length then
          (keyNamesFrom t val n next).map fun rest => rest.map (item :: ·)
        else some (.ok [item])

/-- `parse_key_names` -/
def parseKeyNames (t : Reader) (val : List UInt8) (rounds : Nat) :
    Option (Except Stop (List (BitVec 32 × List UInt8))) :=
  keyNamesFrom t val rounds 0

end Lede.Tffs
