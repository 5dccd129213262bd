/-
Lede.FwSlot.Slot — the firmware slots of `zte-fwslot.c`: the version header, how a
slot is scanned for it, and how its payload is checked.

A slot is a run of erase blocks. Offsets in the source are multiples of the erase
size, so a block is named by its number; its content is a byte memory of its own. Both
slots lie in one flash and have one erase size (`Geom`), which holds a version header
and is no larger than the buffers of the tool.

Reading a good block succeeds. MEMGETBADBLOCK shows the bad block table (`bad`).
-/
import Lede.Lib.Words

namespace Lede.FwSlot

open Lede.Lib

/-! ## CRC -/

/-- `crc_table[i]`. -/
def crcTable (i : BitVec 32) : BitVec 32 := Nat.iterate crcBit 8 i

/-- `crc32_update` over the `len` bytes at `o`. -/
def crc32Update (c : BitVec 32) (m : Nat → UInt8) (o len : Nat) : BitVec 32 :=
  (List.range len).foldl (fun c i =>
    crcTable ((c ^^^ (m (o + i)).toBitVec.setWidth 32) &&& 0xff#32) ^^^ (c >>> 8)) c

/-- `crc32(buf, len)`. -/
def crc32 (m : Nat → UInt8) (o len : Nat) : Nat :=
  (crc32Update 0xffffffff#32 m o len ^^^ 0xffffffff#32).toNat

/-! ## The version header -/

def verHdrSize : Nat := 0x200
def ubootSize : Nat := 0x180000
def kernelMagicSize : Nat := 32

/-- Offsets of the fields of a version header. -/
def hFwSize : Nat := 0x30
def hKernelSize : Nat := 0x34
def hKernelFileofs : Nat := 0x38
def hKernelCrc : Nat := 0x3c
def hFsSize : Nat := 0x40
def hFsFileofs : Nat := 0x44
def hFsCrc : Nat := 0x48
def hProduct : Nat := 0x6c
def hUbootCrc : Nat := 0x98
def hCrc : Nat := 0xa4
def hInnerMagic : Nat := 0xf4
def hSlotStart : Nat := 0x1f0
def hSerial : Nat := 0x1f4
def hNew : Nat := 0x1f8
def hCrc2 : Nat := 0x1fc

def innerMagic : List UInt8 :=
  [0x33, 0x33, 0x33, 0x33, 0x66, 0x66, 0x66, 0x66, 0x99, 0x99, 0x99, 0x99, 0xcc, 0xcc, 0xcc, 0xcc]

/-- `memcmp(m + o, bytes, …) == 0`. -/
def memEq (m : Nat → UInt8) (o : Nat) (bytes : List UInt8) : Bool :=
  (List.range bytes.length).all (fun i => m (o + i) == bytes.getD i 0)

/-- What makes a block a version header: the magic, and the CRC over [0:0xa4]. -/
def isHeader (m : Nat → UInt8) : Bool :=
  memEq m hInnerMagic innerMagic && crc32 m 0 hCrc == get32 m hCrc

/-- The serial number of a header. -/
def serialOf (m : Nat → UInt8) : Nat := get32 m hSerial

/-! ## Slots -/

instance slotsNeZero : NeZero 2 := ⟨by decide⟩

/-- The erase size. -/
structure Geom where
  bs : Nat
  hdr_le : verHdrSize ≤ bs
  le_buf : bs ≤ 0x20000

/-- A slot: its number of blocks, the bad block table and the content of the blocks. -/
structure Slot where
  blocks : Nat
  bad : Nat → Bool
  mem : Nat → Nat → UInt8

/-- `slot_scan`: the first good block that is a version header. -/
def Slot.scan (s : Slot) : Option Nat :=
  (List.range s.blocks).find? (fun b => !s.bad b && isHeader (s.mem b))

/-! ## Checking a slot -/

/-- A part of the payload and the CRC its version header promises. -/
structure Region where
  fail : String
  start : Nat
  len : Nat
  want : Nat
  crc : BitVec 32

/-- `region_feed`. -/
def Region.feed (r : Region) (pos : Nat) (buf : Nat → UInt8) (n : Nat) : Region :=
  let lo := if r.start < pos then pos else r.start
  let fin := r.start + r.len
  let hi := if pos + n < fin then pos + n else fin
  if lo < hi then { r with crc := crc32Update r.crc buf (lo - pos) (hi - lo) } else r

/-- The loop of `slot_verify`, `fuel` blocks before the end of the slot. -/
def Slot.feedLoop (g : Geom) (s : Slot) (bodyLen : Nat) :
    Nat → Nat → Nat → List Region → Except String (List Region)
  | 0, _, pos, rs =>
    if pos < bodyLen then .error "payload runs past the end of the slot" else .ok rs
  | fuel + 1, b, pos, rs =>
    if pos < bodyLen then
      if s.bad b then s.feedLoop g bodyLen fuel (b + 1) pos rs
      else
        let n := if bodyLen - pos < g.bs then bodyLen - pos else g.bs
        s.feedLoop g bodyLen fuel (b + 1) (pos + n) (rs.map (·.feed pos (s.mem b) n))
    else .ok rs

/-- The U-Boot, the kernel and the root filesystem. -/
def regions (hdr : Nat → UInt8) : List Region :=
  let kstart := ubootSize + kernelMagicSize
  let koff := get32 hdr hKernelFileofs
  let foff := get32 hdr hFsFileofs
  [⟨"U-Boot CRC mismatch", 0, ubootSize, get32 hdr hUbootCrc, 0xffffffff#32⟩,
    ⟨"kernel CRC mismatch", kstart, get32 hdr hKernelSize, get32 hdr hKernelCrc, 0xffffffff#32⟩,
    ⟨"root filesystem CRC mismatch", kstart + (foff - koff), get32 hdr hFsSize, get32 hdr hFsCrc,
      0xffffffff#32⟩]

/-- The check that follows the loop. -/
def checkRegions : List Region → Option String
  | [] => none
  | r :: rs => if (r.crc ^^^ 0xffffffff#32).toNat ≠ r.want then some r.fail else checkRegions rs

/-- `slot_verify`: what is wrong with a slot, `none` for an intact one. -/
def Slot.verify (g : Geom) (s : Slot) (hdr : Nat → UInt8) : Option String :=
  let bodyLen := get32 hdr hFwSize
  if crc32 hdr 0 hCrc ≠ get32 hdr hCrc ∨ crc32 hdr 0 hCrc2 ≠ get32 hdr hCrc2 then
    some "version header CRC mismatch"
  else if get32 hdr hFsFileofs < get32 hdr hKernelFileofs then some "bad firmware layout"
  else if s.blocks * g.bs < bodyLen then some "bad firmware layout"
  else if (regions hdr).any (fun r => bodyLen < r.start + r.len) then some "bad firmware layout"
  else
    match s.feedLoop g bodyLen s.blocks 0 0 (regions hdr) with
    | .error why => some why
    | .ok rs => checkRegions rs

/-! ## Both slots -/

/-- `slot_start`. -/
def slotStart : Fin 2 → Nat
  | 0 => 0x600000
  | 1 => 0x2f00000

/-- The two slots of the flash. -/
abbrev Flash := Fin 2 → Slot

/-- `slot_info_read`: the version header of a slot. -/
def Slot.header (s : Slot) : Option (Nat → UInt8) := s.scan.map s.mem

/-- `max_serial`. -/
def maxSerial (f : Flash) : Nat :=
  let best := match (f 0).header with
    | some h => serialOf h
    | none => 0
  match (f 1).header with
  | some h => if best < serialOf h then serialOf h else best
  | none => best

/-- `next_slot`: the slot the bootloader starts. -/
def nextSlot (f : Flash) : Option (Fin 2) :=
  match (f 0).header, (f 1).header with
  | none, none => none
  | some _, none => some 0
  | none, some _ => some 1
  | some h₀, some h₁ => if serialOf h₀ < serialOf h₁ then some 1 else some 0

end Lede.FwSlot
