/-
Lede.Mtd.Crc — the checksum of `crc32.h`.

`crc32_table` holds, for each byte, the result of eight shift and xor steps.
-/
import Lede.Lib.Words

namespace Lede.Mtd

open Lede.Lib

/-- `crc32_table[i]`. -/
def crc32Table (i : BitVec 32) : BitVec 32 := Nat.iterate crcBit 8 i

example : crc32Table 0x01 = 0x77073096 ∧ crc32Table 0xff = 0x2d02ef8d := by decide

def crc32 (val : BitVec 32) (s : List UInt8) : BitVec 32 :=
  s.foldl (fun val b => crc32Table ((val ^^^ b.toBitVec.setWidth 32) &&& 0xff#32) ^^^ (val >>> 8))
    val

def crc32buf (buf : List UInt8) : BitVec 32 := crc32 0xffffffff#32 buf

end Lede.Mtd
