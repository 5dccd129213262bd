/-
Lede.Mtd.Dump — `mtd_dump` of `mtd.c`: a part of an MTD device to the standard output.

A chunk is one erase block, the last one is what is left of the size. Three positions
move with the chunks: the one of the file descriptor, the size that is left, and the
offset the bad blocks are asked with, which starts at 0.

`dumpLoop` gives the addresses whose bytes are written. A `read` returns all it is asked
for where the device goes that far, and `write` takes everything.
-/
import Lede.Mtd.Write

namespace Lede.Mtd

/-- A device whose bad blocks are a matter of whole blocks. `mtdsize` is an `int`. -/
structure Chip (c : Cfg) extends Device where
  bad_block : ∀ off, bad off = bad (off / c.erasesize * c.erasesize)
  size_lt : size < 2 ^ 31

/-- The loop; `false` for the exit when the ioctl fails. -/
def dumpLoop (c : Cfg) (d : Device) (pos offset size : Nat) : List Nat × Bool :=
  let len := if c.erasesize < size then c.erasesize else size
  -- `!rlen || rlen != len`
  if h : len = 0 ∨ d.size < pos + len then ([], true)
  else
    match d.blockIsBad offset with
    | none => ([], false)
    | some true => dumpLoop c d (pos + len) (offset + len) size
    | some false =>
      let rest :=
        if 0 < size - len then dumpLoop c d (pos + len) (offset + len) (size - len) else ([], true)
      (List.range' pos len ++ rest.1, rest.2)
termination_by d.size - pos
decreasing_by all_goals omega

/-- `if (!size) size = mtdsize`. -/
def Device.dumpSize (d : Device) (size : Nat) : Nat := if size = 0 then d.size else size

/-- `mtd_dump`: what it writes, and whether it returns. -/
def mtdDump (c : Cfg) (d : Device) (data : Nat → UInt8) (size : Nat) : List UInt8 × Bool :=
  let r := dumpLoop c d (d.seekSet c.partOffset) 0 (d.dumpSize size)
  (r.1.map data, r.2)

end Lede.Mtd
