/-
Lede.MtdSplit.Uimage — the parser that splits a partition at a uImage
(`drivers/mtd/mtdsplit/mtdsplit_uimage.c`).

It looks for a uImage header at each erase block. The image at offset 0 is
followed by the root file system; one further on has the root file system before
it, at offset 0. The device tree may move the header behind the start of the
block, ask for a magic there and say how much padding the image has.

The buffer has the size that the addition of its parts gives in a `size_t`. A
header offset near 2^32 makes it small on a 32-bit machine, and the header is
then outside of it.
-/
import Lede.MtdSplit.Mtd

namespace Lede.MtdSplit

open Lede.Lib

/-! ## The header -/

/-- `sizeof(struct uimage_header)` -/
def uimageHeaderLen : Nat := 64

def IH_MAGIC : BitVec 32 := 0x27051956
def IH_TYPE_KERNEL : BitVec 32 := 2
def IH_OS_LINUX : UInt8 := 5

/-- `header->ih_size` -/
def ihSize (header : Nat → UInt8) : BitVec 32 := ld32 .big header 12

/-- The properties of a device node that `uimage_parse_dt` asks for. -/
structure UimageNode where
  compatible : Bool
  padding : Option (BitVec 32) := none
  ihMagic : Option (BitVec 32) := none
  ihType : Option (BitVec 32) := none
  offset : Option (BitVec 32) := none
  partitionMagic : Option (BitVec 32) := none

/-- What `uimage_parse_dt` leaves in its variables; `extralen` is an `int`. -/
structure UimageDt where
  extralen : BitVec 32 := 0
  ihMagic : BitVec 32 := IH_MAGIC
  ihType : BitVec 32 := IH_TYPE_KERNEL
  headerOffset : BitVec 32 := 0
  partMagic : BitVec 32 := 0

/-- `uimage_parse_dt` -/
def uimageParseDt (np : Option UimageNode) : UimageDt :=
  match np with
  | none => {}
  | some np =>
    if !np.compatible then {}
    else
      { extralen := np.padding.getD 0
        ihMagic := np.ihMagic.getD IH_MAGIC
        ihType := np.ihType.getD IH_TYPE_KERNEL
        headerOffset := np.offset.getD 0
        partMagic := np.partitionMagic.getD 0 }

/-- `uimage_verify_default` -/
def uimageVerifyDefault (header : Nat → UInt8) (ihMagic ihType : BitVec 32) : Int :=
  if ld32 .big header 0 ≠ ihMagic then -EINVAL
  else if header 28 ≠ IH_OS_LINUX then -EINVAL
  else if (header 30).toNat ≠ ihType.toNat then -EINVAL
  else 0

/-- `read_uimage_header` -/
def readUimageHeader (flash : Flash) (offset headerLen : Nat) : Int × (Nat → UInt8) :=
  let r := flash offset headerLen
  if r.ret ≠ 0 then (r.ret, r.buf)
  else if r.retlen ≠ headerLen then (- EIO, r.buf)
  else (0, r.buf)

/-! ## The parser -/

section Parser

variable (m : Machine) (mtd : MtdInfo) (flash : Flash) (dt : UimageDt)

/-- `buflen` -/
def uimageBuflen : Nat := m.sizeT.wrap (uimageHeaderLen + dt.headerOffset.toNat : Nat)

/-- The header in the buffer of a block. -/
def headerOf (buf : Nat → UInt8) : Nat → UInt8 := fun i => buf (dt.headerOffset.toNat + i)

/-- The lengths that make up the size of an image, added as they are. -/
def uimageTotal (buf : Nat → UInt8) : Int :=
  uimageHeaderLen + (ihSize (headerOf dt buf)).toNat + dt.headerOffset.toNat + dt.extralen.toInt

/-- One round of the search: it goes on with a value of `uimage_size`, or the image is found. -/
inductive Round where
  | fault
  | next (uimageSize : Nat)
  | found (uimageSize : Nat)
deriving DecidableEq, Repr

def uimageRound (offset : Nat) : Round :=
  let r := readUimageHeader flash offset (uimageBuflen m dt)
  if r.1 ≠ 0 then .next 0
  else if dt.headerOffset ≠ 0 ∧ dt.partMagic ≠ 0 ∧ ld32 .big r.2 0 ≠ dt.partMagic then .next 0
  else if uimageBuflen m dt < dt.headerOffset.toNat + uimageHeaderLen then .fault
  else if uimageVerifyDefault (headerOf dt r.2) dt.ihMagic dt.ihType < 0 then .next 0
  else
    let uimageSize := m.sizeT.wrap (uimageTotal dt r.2)
    if mtd.size < m.sizeT.wrap (offset + uimageSize : Nat) then .next uimageSize
    else .found uimageSize

/-- The search for the image: the offset and the size with which its loop ends, or a fault. -/
def findUimage : Nat → Nat → Nat → Option (Option (Nat × Nat))
  | 0, _, _ => none
  | n + 1, offset, uimageSize =>
    if offset < mtd.size then
      match uimageRound m mtd flash dt offset with
      | .fault => some none
      | .next size => findUimage n (m.sizeT.wrap (offset + mtd.erasesize : Nat)) size
      | .found size => some (some (offset, size))
    else some (some (offset, uimageSize))

/-- The two partitions, once the image has been found. -/
def splitUimage (rounds uimageOffset uimageSize : Nat) : Option Parse :=
  if uimageSize = 0 then some (.ret 0 [])
  else if uimageOffset = 0 then
    match mtdFindRootfsFrom m mtd flash (m.sizeT.wrap mtd.size) rounds
        (m.sizeT.wrap (uimageOffset + uimageSize : Nat)) with
    | none => none
    | some (.error _) => some (.ret 0 [])
    | some (.ok (rootfsOffset, type)) =>
      let rootfsSize := m.sizeT.wrap (mtd.size - rootfsOffset)
      if rootfsSize = 0 then some (.ret (-ENODEV) [])
      else
        some (.ret 2 [⟨KERNEL_PART_NAME, uimageOffset, m.sizeT.wrap (rootfsOffset - uimageOffset)⟩,
          ⟨rootfsPartName type, rootfsOffset, rootfsSize⟩])
  else
    match mtdCheckRootfsMagic m.endian flash 0 with
    | .error _ => some (.ret 0 [])
    | .ok type =>
      some (.ret 2 [⟨rootfsPartName type, 0, uimageOffset⟩,
        ⟨KERNEL_PART_NAME, uimageOffset, uimageSize⟩])

/-- `__mtdsplit_parse_uimage`; `vmalloc` gives no buffer of length 0. -/
def mtdsplitParseUimage (np : Option UimageNode) (rounds : Nat) : Option Parse :=
  let dt := uimageParseDt np
  if uimageBuflen m dt = 0 then some (.ret (-ENOMEM) [])
  else
    match findUimage m mtd flash dt rounds 0 0 with
    | none => none
    | some none => some .fault
    | some (some (offset, size)) => splitUimage m mtd flash rounds offset size

end Parser

end Lede.MtdSplit
