/-
Lede.Mtd.Fis — the RedBoot FIS directory (`fis.c`): replacing partitions in it.

The directory is one erase block of descriptors of 256 bytes. It ends at a descriptor the
name of which starts with NUL or 0xff, or at the end of the block. Pointers to descriptors
are positions in the table here, and the table is a list, so a move of memory is a
move of list elements. A null pointer that is followed, and a move the length of which is
negative, are faults: there is no table then.

The directory can be opened, and what is written to the mapping is the table.
-/
import Mathlib.Data.Vector.Basic

namespace Lede.Mtd.Fis

/-! ## The directory -/

/-- `struct fis_image_desc`. -/
structure Desc where
  name : Vector UInt8 16
  flashBase : UInt32
  memBase : UInt32
  size : UInt32
  entryPoint : UInt32
  dataLength : UInt32
  pad : Vector UInt8 212
  crcDesc : UInt32
  crcFile : UInt32
deriving DecidableEq

/-- `struct fis_part`; its offset is never read. -/
structure Part where
  name : Vector UInt8 16
  loadaddr : UInt32
  size : UInt32
  length : UInt32
  crc : UInt32

/-- A name has a first character. -/
theorem name_pos : 0 < 16 := by decide

/-- The name is not that of the end of the directory. -/
def liveName (name : Vector UInt8 16) : Bool := name[0] != 0 && name[0] != 0xff

/-- `!strncmp(a, b, 16)`. -/
def sameName (a b : Vector UInt8 16) : Bool :=
  a.toList.takeWhile (· != 0) == b.toList.takeWhile (· != 0)

/-- A descriptor with the name of an old partition. -/
def named (old : List Part) (d : Desc) : Bool := old.any (fun p => sameName d.name p.name)

/-- The descriptors the loops of the source go through. -/
def live (t : List Desc) : List Desc := t.takeWhile (fun d => liveName d.name)

/-! ## Checking -/

/-- `fis_validate`: only the last new partition finds its size itself, and as many
descriptors are old as there are old partitions. -/
def fisValidate (t : List Desc) (old new : List Part) : Bool :=
  new.dropLast.all (fun p => p.size != 0) && ((live t).filter (named old)).length == old.length

/-! ## Replacing -/

/-- What the first loop of `fis_remap` finds out. -/
structure Found where
  offset : UInt32
  first : Option Nat
  last : Option Nat

/-- The first loop, from position `i`: the highest flash address of a descriptor, and the first
and the last old one. -/
def findOld (old : List Part) : Nat → List Desc → Found → Found
  | _, [], a => a
  | i, d :: ds, a =>
    findOld old (i + 1) ds
      { offset := if a.offset < d.flashBase then d.flashBase else a.offset
        first := if named old d then some (a.first.getD i) else a.first
        last := if named old d then some i else a.last }

/-- The second loop: the lowest flash address above `above`. -/
def findEnd (above : UInt32) : List Desc → UInt32 → UInt32
  | [], offset => offset
  | d :: ds, offset =>
    findEnd above ds
      (if above < d.flashBase ∧ d.flashBase < offset then d.flashBase else offset)

/-- `memmove(t + dst, t + src, n)`. -/
def memmove (t : List Desc) (dst src n : Nat) : List Desc :=
  t.take dst ++ (t.drop src).take n ++ t.drop (dst + n)

/-- A descriptor of 0xff bytes. -/
def blank : Desc where
  name := Vector.replicate 16 0xff
  flashBase := 0xffffffff
  memBase := 0xffffffff
  size := 0xffffffff
  entryPoint := 0xffffffff
  dataLength := 0xffffffff
  pad := Vector.replicate 212 0xff
  crcDesc := 0xffffffff
  crcFile := 0xffffffff

/-- `memset(t + i, 0xff, …)`, to the end. -/
def memset (t : List Desc) (i : Nat) : List Desc := t.take i ++ List.replicate (t.length - i) blank

/-- The descriptor of a new partition at `offset`, with `size` bytes left. -/
def newDesc (p : Part) (offset size : UInt32) : Desc :=
  let size := if 0 < p.size then p.size else size
  { name := p.name
    flashBase := offset
    memBase := p.loadaddr
    size := size
    entryPoint := p.loadaddr
    dataLength := if 0 < p.length then p.length else size
    pad := Vector.replicate 212 0
    crcDesc := 0
    crcFile := p.crc }

/-- The last loop: the new descriptors, from position `i`. -/
def place : List Part → Nat → UInt32 → UInt32 → List Desc → List Desc
  | [], _, _, _, t => t
  | p :: ps, i, offset, size, t =>
    let d := newDesc p offset size
    place ps (i + 1) (offset + d.size) (size - d.size) (t.set i d)

/-- `fis_remap`. -/
def fisRemap (t : List Desc) (old new : List Part) : Option (List Desc) :=
  let a := findOld old 0 (live t) ⟨0, none, none⟩
  match a.first, a.last with
  | some first, some last =>
    let (firstFb, lastFb) :=
      if (t.getD last blank).flashBase < (t.getD first blank).flashBase then (last, first)
      else (first, last)
    let base := (t.getD firstFb blank).flashBase
    let size := findEnd (t.getD lastFb blank).flashBase (live t) a.offset - base
    let last := last + 1
    let desc := first + new.length
    if t.length < desc then none
    else
      let moved := if desc = last then t
        else memmove t desc last (t.length - max desc last)
      let cleared := if desc < last then memset moved (t.length - (last - desc)) else moved
      some (place new first base size cleared)
  | _, _ => none

end Lede.Mtd.Fis
