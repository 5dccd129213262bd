/-
Lede.Mtd.Trx — `mtd_fixtrx` of `trx.c`: the length and the checksum in the header of
the TRX image of an MTD device.

The header is three words that are not covered by the checksum, magic, length and
checksum, and four that are. Bytes are addressed from the start of the device; a
buffer is a function from its indices. `malloc` succeeds, and a `pread` returns all it
is asked for where the device goes that far.
-/
import Lede.Mtd.Dump
import Lede.Mtd.Crc
import Lede.Lib.Checksum

namespace Lede.Mtd

open Lede.Lib

/-- The machine: the width of `size_t` and the byte order. -/
structure Host where
  sizeBits : Nat
  endian : Endian
  le_sizeBits : 32 ≤ sizeBits := by decide

/-- `off & ~(erasesize - 1)` in `size_t`. -/
def Host.blockOf (h : Host) (c : Cfg) (off : Nat) : Nat := off &&& (2 ^ h.sizeBits - c.erasesize)

/-- `STORE32_LE`. -/
def Host.store32LE (h : Host) (x : Nat) : Nat :=
  match h.endian with
  | .little => x
  | .big =>
    ((x &&& 0x000000ff) <<< 24) ||| ((x &&& 0x0000ff00) <<< 8) ||| ((x &&& 0x00ff0000) >>> 8) |||
      ((x &&& 0xff000000) >>> 24)

/-- What the call does to the device. -/
inductive FlashOp where
  | erase (start : Nat)
  | pwrite (pos : Nat) (data : List UInt8)

def FlashOp.apply (c : Cfg) (m : Nat → UInt8) : FlashOp → Nat → UInt8
  | erase start => fun a => if start ≤ a ∧ a < start + c.erasesize then 0xff else m a
  | pwrite pos data => fun a =>
    if pos ≤ a ∧ a < pos + data.length then data.getD (a - pos) 0 else m a

/-- The bytes of the device after the operations. -/
def afterOps (c : Cfg) (m : Nat → UInt8) (ops : List FlashOp) : Nat → UInt8 :=
  ops.foldl (FlashOp.apply c) m

theorem chunk_pos {erasesize : Nat} (hpos : 0 < erasesize) (off : Nat) :
    0 < erasesize - (off &&& (erasesize - 1)) := by
  have := Nat.and_le_right (n := off) (m := erasesize - 1)
  omega

/-- The loop that reads the data; `none` for an exit. -/
def readLoop (h : Host) (c : Cfg) (d : Device) (m : Nat → UInt8) (dataOffset dataSize : Nat) :
    Option (List UInt8) :=
  if _hsize : dataSize = 0 then some []
  else
    let readBlockOffset := h.blockOf c dataOffset
    let readChunk := min (c.erasesize - (dataOffset &&& (c.erasesize - 1))) dataSize
    -- the offset of the block is passed as an `int`
    match d.blockIsBad (readBlockOffset % 2 ^ 32) with
    | none => none
    | some true =>
      readLoop h c d m ((dataOffset + readChunk) % 2 ^ h.sizeBits) (dataSize - readChunk)
    | some false =>
      if d.size < dataOffset + readChunk then none
      else
        (readLoop h c d m ((dataOffset + readChunk) % 2 ^ h.sizeBits) (dataSize - readChunk)).map
          ((List.range' dataOffset readChunk).map m ++ ·)
termination_by dataSize
decreasing_by
  all_goals
    have := chunk_pos c.erasesize_pos dataOffset
    omega

/-- From the comparison with the header on, with `buf` as the data. -/
def fixHeader (h : Host) (c : Cfg) (d : Device) (blockOffset offset : Nat)
    (firstBlock : Nat → UInt8) (buf : List UInt8) : List FlashOp × Bool :=
  let len := h.store32LE (buf.length + 12)
  let crc := h.store32LE (crc32buf buf).toNat
  if (ld32 h.endian firstBlock (offset + 4)).toNat = len ∧
      (ld32 h.endian firstBlock (offset + 8)).toNat = crc then
    ([], true)
  else
    let firstBlock := st32 h.endian firstBlock (offset + 4) (BitVec.ofNat 32 len)
    let firstBlock := st32 h.endian firstBlock (offset + 8) (BitVec.ofNat 32 crc)
    if ¬ d.eraseBlock c blockOffset then ([], false)
    else
      let n := d.writes blockOffset c.erasesize
      ([.erase (eraseStart blockOffset), .pwrite blockOffset ((List.range n).map firstBlock)],
        n = c.erasesize)

/-- `mtd_fixtrx`: what it does to the device, and whether it returns 0. -/
def mtdFixtrx (h : Host) (c : Cfg) (d : Device) (trxmagic : BitVec 32) (m : Nat → UInt8)
    (offset dataSize : Nat) : List FlashOp × Bool :=
  let dataOffset := (offset + 12) % 2 ^ h.sizeBits
  let dataSize :=
    if dataSize ≠ 0 then (dataSize + 16) % 2 ^ h.sizeBits
    else (c.erasesize + 2 ^ h.sizeBits - 12) % 2 ^ h.sizeBits
  let blockOffset := h.blockOf c offset
  let offset := offset - blockOffset
  if d.size < (dataOffset + dataSize) % 2 ^ h.sizeBits then ([], false)
  else if d.size < blockOffset + c.erasesize then ([], false)
  else
    let firstBlock := fun i => m (blockOffset + i)
    if be32 firstBlock offset ≠ trxmagic then ([], false)
    else
      match readLoop h c d m dataOffset dataSize with
      | none => ([], false)
      | some buf => fixHeader h c d blockOffset offset firstBlock buf

end Lede.Mtd
