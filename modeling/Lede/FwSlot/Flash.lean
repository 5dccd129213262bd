/-
Lede.FwSlot.Flash — the commands of `zte-fwslot.c`: checking a package, flashing it to
the slot that is not running, and switching to that slot.

A command is given with the operations it issues on the flash (`Op`), in order, so that
what a power cut leaves behind can be said: `Cut` relates a slot and the operations
still to come to what a cut may leave of them. Programming clears bits of what the block
holds. An erase of a good block succeeds. A write may fail (`fails`); marking the block bad then
succeeds, and what the write left in it is never read again.

The bytes of a package behind the end of the file are the heap's: `crc32` of a U-Boot
that is not there reads them.
-/
import Lede.FwSlot.Slot

namespace Lede.FwSlot

open Lede.Lib

/-! ## Operations -/

inductive Op where
  | erase (b : Nat)
  | program (b : Nat) (data : Nat → UInt8)
  | fail (b : Nat)

/-- A slot with another content of one block. -/
def Slot.setBlock (s : Slot) (b : Nat) (m : Nat → UInt8) : Slot :=
  { s with mem := fun i => if i = b then m else s.mem i }

/-- An erased block. -/
def erasedBlock : Nat → UInt8 := fun _ => 0xff

/-- `mtd_erase`, a `write` of a block, and one that fails, with `mtd_mark_bad`. -/
def Slot.apply (s : Slot) : Op → Slot
  | .erase b => s.setBlock b erasedBlock
  | .program b data => s.setBlock b (fun i => s.mem b i &&& data i)
  | .fail b => { s with bad := fun i => i == b || s.bad i }

/-- The slot after some operations. -/
def Slot.applyAll (s : Slot) (ops : List Op) : Slot := ops.foldl Slot.apply s

/-- A cut before one of the operations, or in the middle of a write: a torn write leaves
no version header in the block. -/
inductive Cut : Slot → List Op → Slot → Prop where
  | stop (s : Slot) (ops : List Op) : Cut s ops s
  | torn (s : Slot) (b : Nat) (data junk : Nat → UInt8) (ops : List Op)
      (h : isHeader junk = false) : Cut s (.program b data :: ops) (s.setBlock b junk)
  | tornFail (s : Slot) (b : Nat) (junk : Nat → UInt8) (ops : List Op)
      (h : isHeader junk = false) : Cut s (.fail b :: ops) (s.setBlock b junk)
  | step (s t : Slot) (op : Op) (ops : List Op) (h : Cut (s.apply op) ops t) : Cut s (op :: ops) t

/-! ## Packages -/

/-- A package file: its bytes and its size. -/
structure Package where
  data : Nat → UInt8
  size : Nat

namespace Package

variable (p : Package)

def outerMagic : List UInt8 :=
  [0x99, 0x99, 0x99, 0x99, 0x44, 0x44, 0x44, 0x44, 0x55, 0x55, 0x55, 0x55, 0xaa, 0xaa, 0xaa, 0xaa]

/-- `PRODUCT`: "ZXSLC SR1010". -/
def product : List UInt8 := [0x5a, 0x58, 0x53, 0x4c, 0x43, 0x20, 0x53, 0x52, 0x31, 0x30, 0x31, 0x30]

def hdrOfs : Nat := (0x14 + get32 p.data 0x10) % 2 ^ 32

def bodyOfs : Nat := (p.hdrOfs + verHdrSize) % 2 ^ 32

/-- The version header of the package. -/
def hdr : Nat → UInt8 := fun i => p.data (p.hdrOfs + i)

def body : Nat → UInt8 := fun i => p.data (p.bodyOfs + i)

def bodyLen : Nat := (p.size - p.bodyOfs) % 2 ^ 32

/-- `package_load`, with the message of the `die` it ends in. -/
def load : Except String Unit :=
  let koff := get32 p.hdr hKernelFileofs
  let ksz := get32 p.hdr hKernelSize
  let foff := get32 p.hdr hFsFileofs
  let fsz := get32 p.hdr hFsSize
  if p.size < 0x14 + verHdrSize then .error "package too small"
  else if !memEq p.data 0 outerMagic then .error "not an SR1010 upgrade package"
  else if p.size < p.bodyOfs then .error "truncated header"
  else if !memEq p.hdr hInnerMagic innerMagic then .error "bad version header"
  else if crc32 p.hdr 0 hCrc ≠ get32 p.hdr hCrc ∨ crc32 p.hdr 0 hCrc2 ≠ get32 p.hdr hCrc2 then
    .error "header CRC mismatch"
  else if !memEq p.hdr hProduct product then .error "package is not for this product"
  else if get32 p.hdr hFwSize ≠ p.bodyLen then .error "body size mismatch"
  else if p.size < koff + ksz ∨ p.size < foff + fsz then .error "region outside package"
  else if crc32 p.body 0 ubootSize ≠ get32 p.hdr hUbootCrc then .error "U-Boot CRC mismatch"
  else if crc32 p.data koff ksz ≠ get32 p.hdr hKernelCrc then .error "kernel CRC mismatch"
  else if crc32 p.data foff fsz ≠ get32 p.hdr hFsCrc then .error "rootfs CRC mismatch"
  else .ok ()

end Package

/-! ## Writing -/

/-- What a command leaves: the slot, what it did to it, and what it reports. -/
structure Done (α : Type) where
  slot : Slot
  ops : List Op
  result : α

/-- `write_block` at block `b` or after it, `fuel` blocks before the end of the slot; the
result is the block after the one written. -/
def writeBlock (fails : Nat → Bool) (data : Nat → UInt8) : Nat → Nat → Slot → Done (Option Nat)
  | 0, _, s => ⟨s, [], none⟩
  | fuel + 1, b, s =>
    if s.bad b then writeBlock fails data fuel (b + 1) s
    else if fails b then
      let r := writeBlock fails data fuel (b + 1) (s.apply (.fail b))
      ⟨r.slot, .fail b :: r.ops, r.result⟩
    else ⟨s.apply (.program b data), [.program b data], some (b + 1)⟩

/-- A block of the body, padded. -/
def chunk (g : Geom) (src : Nat → UInt8) (left : Nat) : Nat → UInt8 :=
  if left < g.bs then fun i => if i < left then src i else 0xff else src

/-- The loop over the body, `n` blocks at most. -/
def writeBody (g : Geom) (fails : Nat → Bool) :
    Nat → (Nat → UInt8) → Nat → Nat → Slot → Done (Option Nat)
  | 0, _, _, b, s => ⟨s, [], some b⟩
  | n + 1, src, left, b, s =>
    if left = 0 then ⟨s, [], some b⟩
    else
      let r := writeBlock fails (chunk g src left) (s.blocks - b) b s
      match r.result with
      | none => r
      | some b' =>
        let q := writeBody g fails n (fun i => src (g.bs + i)) (left - g.bs) b' r.slot
        ⟨q.slot, r.ops ++ q.ops, q.result⟩

/-- `erase_slot`. -/
def eraseOps (s : Slot) : List Op := ((List.range s.blocks).filter (fun b => !s.bad b)).map .erase

/-- The version header as it is written. -/
def newHeader (hdr : Nat → UInt8) (slot : Fin 2) (serial : Nat) : Nat → UInt8 :=
  let h := put32 (put32 (put32 hdr hSlotStart (slotStart slot)) hSerial serial) hNew 1
  put32 h hCrc2 (crc32 h 0 hCrc2)

/-- A block that holds a header. -/
def hdrBlock (hdr : Nat → UInt8) : Nat → UInt8 := fun i => if i < verHdrSize then hdr i else 0xff

/-- The part of `cmd_flash` that writes: the body, then the header behind it. -/
def writeSlot (g : Geom) (fails : Nat → Bool) (p : Package) (hdr : Nat → UInt8) (s : Slot) :
    Done (Option Nat) :=
  let r := writeBody g fails (p.bodyLen / g.bs + 1) p.body p.bodyLen 0 s
  match r.result with
  | none => r
  | some b =>
    let q := writeBlock fails (hdrBlock hdr) (s.blocks - b) b r.slot
    ⟨q.slot, r.ops ++ q.ops, q.result⟩

/-- `cmd_flash`: what it does to the slot that is not running, and the serial it
reports. -/
def cmdFlash (g : Geom) (fails : Nat → Bool) (p : Package) (f : Flash) (running : Fin 2) :
    Done (Except String Nat) :=
  let s := f (running + 1)
  match p.load with
  | .error why => ⟨s, [], .error why⟩
  | .ok () =>
    if s.blocks * g.bs - g.bs < p.bodyLen then ⟨s, [], .error "package larger than slot"⟩
    else
      let hdr := newHeader p.hdr (running + 1) ((maxSerial f + 1) % 2 ^ 32)
      let erased := s.applyAll (eraseOps s)
      let r := writeSlot g fails p hdr erased
      let ops := eraseOps s ++ r.ops
      match r.result with
      | none => ⟨r.slot, ops, .error "ran out of good blocks"⟩
      | some _ =>
        match r.slot.header with
        | none => ⟨r.slot, ops, .error "header verify failed after flash"⟩
        | some h => ⟨r.slot, ops, .ok (serialOf h)⟩

/-- A version header with another serial. -/
def withSerial (hdr : Nat → UInt8) (serial : Nat) : Nat → UInt8 :=
  let h := put32 hdr hSerial serial
  put32 h hCrc2 (crc32 h 0 hCrc2)

/-- The part of `cmd_switch` behind the check, for the header in block `b`: a slot that is
damaged is left alone, in an intact one the header is written again. -/
def rewriteHeader (f : Flash) (s : Slot) (b : Nat) : Option String → Done (Except String Nat)
  | some why => ⟨s, [], .error why⟩
  | none =>
    let hdr := withSerial (s.mem b) ((maxSerial f + 1) % 2 ^ 32)
    let ops := [.erase b, .program b (hdrBlock hdr)]
    ⟨s.applyAll ops, ops, .ok (get32 hdr hSerial)⟩

/-- `cmd_switch`. -/
def cmdSwitch (g : Geom) (f : Flash) (running : Fin 2) : Done (Except String Nat) :=
  let s := f (running + 1)
  match s.scan with
  | none => ⟨s, [], .error "holds no firmware"⟩
  | some b => rewriteHeader f s b (s.verify g (s.mem b))

end Lede.FwSlot
