/-
Lede.Nvram.Store — the variables of an NVRAM partition (`nvram.c`, `crc.c`).

A handle holds the mapping of the partition, the offset of the NVRAM in it and a hash
table of the variables. `nvram_commit` writes the variables out and fills the table again
from what it wrote, as `nvram_open` does.

The machine is a little-endian MIPS: `char` is signed, `unsigned long` has 32 bits, and the
mapping lies below 2 GiB, so that the remainder of a pointer is that of its position.
Allocations succeed. A string that runs past the end of the mapping is a fault: there is
no handle then.
-/
import Lede.Lib.Buckets
import Lede.Lib.Bytes

namespace Lede.Nvram

open Lede.Lib

/-! ## Strings -/

/-- A C string. -/
structure CStr where
  bytes : List UInt8
  nul_free : (0 : UInt8) ∉ bytes
deriving DecidableEq

namespace CStr

/-- `strlen`. -/
def length (s : CStr) : Nat := s.bytes.length

def nil : CStr := ⟨[], List.not_mem_nil⟩

def cons (b : UInt8) (hb : b ≠ 0) (s : CStr) : CStr :=
  ⟨b :: s.bytes, fun h => (List.mem_cons.mp h).elim (fun h => hb h.symm) s.nul_free⟩

/-- The string at the start of a memory, and what is behind its NUL. -/
def read : List UInt8 → Option (CStr × List UInt8)
  | [] => none
  | b :: l => if h : b = 0 then some (nil, l) else (read l).map (fun r => (cons b h r.1, r.2))

/-- `strchr(s, c)`: the string is cut in two at the first `c`. -/
def cut (c : UInt8) : (l : List UInt8) → (0 : UInt8) ∉ l → Option (CStr × CStr)
  | [], _ => none
  | b :: l, h =>
    if b = c then some (nil, ⟨l, fun hl => h (List.mem_cons_of_mem b hl)⟩)
    else (cut c l (fun hl => h (List.mem_cons_of_mem b hl))).map
      (fun r => (cons b (fun hb => h (hb ▸ List.mem_cons_self)) r.1, r.2))

theorem read_length {l rest : List UInt8} {s : CStr} (h : read l = some (s, rest)) :
    rest.length < l.length := by
  induction l generalizing s with
  | nil => cases h
  | cons b l ih =>
    rw [read] at h
    split at h
    · cases h
      exact Nat.lt_succ_self _
    · obtain ⟨r, hr, heq⟩ := Option.map_eq_some_iff.mp h
      cases heq
      exact Nat.lt_succ_of_lt (ih hr)

end CStr

/-- `'='`. -/
def eqSign : UInt8 := 0x3d

/-- `hash`. -/
def hash (s : CStr) : BitVec 32 :=
  s.bytes.foldl (fun h c => 31#32 * h + c.toBitVec.signExtend 32) 0#32

/-- The number of buckets. -/
def hashSize : Nat := 257

def bucket (name : CStr) : Nat := (hash name).toNat % hashSize

/-! ## Numbers as strings -/

def hexDigit (d : Fin 16) : UInt8 := if d < 10 then UInt8.ofNat (0x30 + d) else UInt8.ofNat (0x41 + (d - 10))

theorem hexDigit_ne_zero (d : Fin 16) : hexDigit d ≠ 0 := by
  revert d
  decide

/-- `sprintf("0x%0wX", v)`, for a `v` of at most `w` digits. -/
def hex (w v : Nat) : CStr where
  bytes := 0x30 :: 0x78 :: (List.range w).map (fun i => hexDigit (Fin.ofNat 16 (v / 16 ^ (w - 1 - i))))
  nul_free := by
    simp only [List.mem_cons, List.mem_map, not_or, not_exists, not_and]
    exact ⟨by decide, by decide, fun i _ => hexDigit_ne_zero _⟩

/-- The digit a character stands for, in a base up to 16. -/
def digit? (base : Nat) (c : UInt8) : Option Nat :=
  let n := c.toNat
  let d := if 0x30 ≤ n ∧ n ≤ 0x39 then n - 0x30
    else if 0x41 ≤ n ∧ n ≤ 0x46 then n - 0x41 + 10
    else if 0x61 ≤ n ∧ n ≤ 0x66 then n - 0x61 + 10
    else base
  if d < base then some d else none

/-- The number the leading digits stand for. -/
def digits (base : Nat) : Nat → List UInt8 → Nat
  | v, [] => v
  | v, c :: l =>
    match digit? base c with
    | none => v
    | some d => digits base (v * base + d) l

/-- `isspace`. -/
def isSpace (c : UInt8) : Bool := c == 0x20 || (0x09 ≤ c && c ≤ 0x0d)

/-- The base a number says it has, and its digits: `0x` is a base only in front of a digit. -/
def baseOf : List UInt8 → Nat × List UInt8
  | 0x30 :: x :: l =>
    if (x == 0x78 || x == 0x58) && (l.head?.bind (digit? 16)).isSome then (16, l)
    else (8, 0x30 :: x :: l)
  | [0x30] => (8, [0x30])
  | l => (10, l)

/-- `strtoul(s, NULL, 0)`. -/
def strtoul (s : CStr) : Nat :=
  let l := s.bytes.dropWhile isSpace
  let (neg, l) := match l with
    | 0x2d :: l => (true, l)
    | 0x2b :: l => (false, l)
    | l => (false, l)
  let (base, l) := baseOf l
  let v := digits base 0 l
  if 2 ^ 32 ≤ v then 2 ^ 32 - 1 else if neg then (2 ^ 32 - v) % 2 ^ 32 else v

/-! ## The CRC -/

def crc8Table : List UInt8 :=
  [0x00, 0xF7, 0xB9, 0x4E, 0x25, 0xD2, 0x9C, 0x6B, 0x4A, 0xBD, 0xF3, 0x04, 0x6F, 0x98, 0xD6, 0x21,
    0x94, 0x63, 0x2D, 0xDA, 0xB1, 0x46, 0x08, 0xFF, 0xDE, 0x29, 0x67, 0x90, 0xFB, 0x0C, 0x42, 0xB5,
    0x7F, 0x88, 0xC6, 0x31, 0x5A, 0xAD, 0xE3, 0x14, 0x35, 0xC2, 0x8C, 0x7B, 0x10, 0xE7, 0xA9, 0x5E,
    0xEB, 0x1C, 0x52, 0xA5, 0xCE, 0x39, 0x77, 0x80, 0xA1, 0x56, 0x18, 0xEF, 0x84, 0x73, 0x3D, 0xCA,
    0xFE, 0x09, 0x47, 0xB0, 0xDB, 0x2C, 0x62, 0x95, 0xB4, 0x43, 0x0D, 0xFA, 0x91, 0x66, 0x28, 0xDF,
    0x6A, 0x9D, 0xD3, 0x24, 0x4F, 0xB8, 0xF6, 0x01, 0x20, 0xD7, 0x99, 0x6E, 0x05, 0xF2, 0xBC, 0x4B,
    0x81, 0x76, 0x38, 0xCF, 0xA4, 0x53, 0x1D, 0xEA, 0xCB, 0x3C, 0x72, 0x85, 0xEE, 0x19, 0x57, 0xA0,
    0x15, 0xE2, 0xAC, 0x5B, 0x30, 0xC7, 0x89, 0x7E, 0x5F, 0xA8, 0xE6, 0x11, 0x7A, 0x8D, 0xC3, 0x34,
    0xAB, 0x5C, 0x12, 0xE5, 0x8E, 0x79, 0x37, 0xC0, 0xE1, 0x16, 0x58, 0xAF, 0xC4, 0x33, 0x7D, 0x8A,
    0x3F, 0xC8, 0x86, 0x71, 0x1A, 0xED, 0xA3, 0x54, 0x75, 0x82, 0xCC, 0x3B, 0x50, 0xA7, 0xE9, 0x1E,
    0xD4, 0x23, 0x6D, 0x9A, 0xF1, 0x06, 0x48, 0xBF, 0x9E, 0x69, 0x27, 0xD0, 0xBB, 0x4C, 0x02, 0xF5,
    0x40, 0xB7, 0xF9, 0x0E, 0x65, 0x92, 0xDC, 0x2B, 0x0A, 0xFD, 0xB3, 0x44, 0x2F, 0xD8, 0x96, 0x61,
    0x55, 0xA2, 0xEC, 0x1B, 0x70, 0x87, 0xC9, 0x3E, 0x1F, 0xE8, 0xA6, 0x51, 0x3A, 0xCD, 0x83, 0x74,
    0xC1, 0x36, 0x78, 0x8F, 0xE4, 0x13, 0x5D, 0xAA, 0x8B, 0x7C, 0x32, 0xC5, 0xAE, 0x59, 0x17, 0xE0,
    0x2A, 0xDD, 0x93, 0x64, 0x0F, 0xF8, 0xB6, 0x41, 0x60, 0x97, 0xD9, 0x2E, 0x45, 0xB2, 0xFC, 0x0B,
    0xBE, 0x49, 0x07, 0xF0, 0x9B, 0x6C, 0x22, 0xD5, 0xF4, 0x03, 0x4D, 0xBA, 0xD1, 0x26, 0x68, 0x9F]

/-- `hndcrc8`. -/
def hndcrc8 (data : List UInt8) (crc : UInt8) : UInt8 :=
  data.foldl (fun crc b => crc8Table.getD (crc ^^^ b).toNat 0) crc

/-! ## Handles -/

/-- `NVRAM_MIN_SPACE`. -/
def minSpace : Nat := 0x8000

def magic : Nat := 0x48534C46

/-- `sizeof(nvram_header_t)`. -/
def hdrSize : Nat := 20

/-- The content of the partition; none is smaller than `NVRAM_MIN_SPACE`, and the mapping
lies below 2 GiB. -/
structure Partition where
  bytes : List UInt8
  min_le : minSpace ≤ bytes.length
  lt : bytes.length < 2 ^ 31

structure Handle where
  mmap : Partition
  offset : Nat
  room : offset + minSpace ≤ mmap.bytes.length
  table : Table CStr CStr

namespace Handle

/-- `h->length - h->offset`. -/
def space (h : Handle) : Nat := h.mmap.bytes.length - h.offset

/-- A word of the header. -/
def word (h : Handle) (o : Nat) : Nat := get32 (fun i => h.mmap.bytes.getD i 0) (h.offset + o)

/-- `nvram_get`. -/
def get (h : Handle) (name : CStr) : Option CStr := h.table.get bucket name

/-- `nvram_set`, `none` for `-ENOMEM`. -/
def set (h : Handle) (name value : CStr) : Option Handle :=
  if h.space < value.length + 1 then none else some { h with table := h.table.set bucket name value }

/-- `nvram_unset`. -/
def unset (h : Handle) (name : CStr) : Handle := { h with table := h.table.unset bucket name }

/-- The variables, in the order of a walk through the table. -/
def vars (h : Handle) : List (CStr × CStr) := h.table.entries hashSize

end Handle

/-! ## Reading -/

/-- The strings "name=value" up to an empty one, or to one without '='. -/
def parse (l : List UInt8) : Option (List (CStr × CStr)) :=
  match _h : CStr.read l with
  | none => none
  | some (s, rest) =>
    if s.bytes = [] then some []
    else
      match CStr.cut eqSign s.bytes s.nul_free with
      | none => some []
      | some v => (parse rest).map (v :: ·)
termination_by l.length
decreasing_by exact CStr.read_length ‹_›

/-- "sdram_init", "sdram_config", "sdram_refresh" and "sdram_ncdl". -/
def sdramInit : CStr := ⟨[0x73, 0x64, 0x72, 0x61, 0x6d, 0x5f, 0x69, 0x6e, 0x69, 0x74], by decide⟩
def sdramConfig : CStr := ⟨[0x73, 0x64, 0x72, 0x61, 0x6d, 0x5f, 0x63, 0x6f, 0x6e, 0x66, 0x69, 0x67], by decide⟩
def sdramRefresh : CStr := ⟨[0x73, 0x64, 0x72, 0x61, 0x6d, 0x5f, 0x72, 0x65, 0x66, 0x72, 0x65, 0x73, 0x68], by decide⟩
def sdramNcdl : CStr := ⟨[0x73, 0x64, 0x72, 0x61, 0x6d, 0x5f, 0x6e, 0x63, 0x64, 0x6c], by decide⟩

namespace Handle

/-- What is behind the header. -/
def area (h : Handle) : List UInt8 := h.mmap.bytes.drop (h.offset + hdrSize)

/-- The SDRAM parameters of the header. -/
def sdramVars (h : Handle) : List (CStr × CStr) :=
  [(sdramInit, hex 4 (h.word 8 / 2 ^ 16)), (sdramConfig, hex 4 (h.word 12 % 2 ^ 16)),
    (sdramRefresh, hex 4 (h.word 12 / 2 ^ 16)), (sdramNcdl, hex 8 (h.word 16))]

/-- A variable of the partition: whether it was set is not looked at. -/
def load (h : Handle) (v : CStr × CStr) : Handle := (h.set v.1 v.2).getD h

/-- A variable of the header, which gives way to one of the partition. -/
def loadAbsent (h : Handle) (v : CStr × CStr) : Handle := if (h.get v.1).isNone then h.load v else h

/-- `_nvram_free`. -/
def free (h : Handle) : Handle := { h with table := fun _ => [] }

/-- `_nvram_rehash`. -/
def rehash (h : Handle) : Option Handle :=
  (parse h.area).map fun vars =>
    h.sdramVars.foldl loadAbsent (vars.foldl load h.free)

end Handle

/-- The search for the magic. -/
def findMagic (l : List UInt8) : Option Nat :=
  (List.range ((l.length - minSpace) / 4 + 1)).find? (fun i => get32 (fun a => l.getD a 0) (4 * i) == magic)

theorem findMagic_le {p : Partition} {i : Nat} (h : findMagic p.bytes = some i) :
    4 * i + minSpace ≤ p.bytes.length := by
  have hi := List.mem_range.mp (List.mem_of_find?_eq_some h)
  have hmin := p.min_le
  omega

/-- The part of `nvram_open` behind the search, for the magic in word `i`. -/
def openAt (file : Partition) (i : Nat) (hi : 4 * i + minSpace ≤ file.bytes.length) : Option Handle :=
  let h : Handle := ⟨file, 4 * i, hi, fun _ => []⟩
  if h.word 0 = magic ∧ h.word 4 < h.space then h.rehash else none

/-- `nvram_open(file, NVRAM_RW)`. -/
def nvramOpen (file : Partition) : Option Handle :=
  (findMagic file.bytes).pbind (fun i hi => openAt file i (findMagic_le hi))

/-! ## Writing -/

/-- `NVRAM_ROUNDUP(x, 4)`. -/
def roundup4 (x : Nat) : Nat := (x + 3) / 4 * 4

/-- "name=value" and its NUL. -/
def record (v : CStr × CStr) : List UInt8 := v.1.bytes ++ eqSign :: (v.2.bytes ++ [0])

/-- The tuples of a bucket, up to the first that would go past the end; `out` was written
before. -/
def writeBucket (room : Nat) : List UInt8 → List (CStr × CStr) → List UInt8
  | out, [] => out
  | out, v :: vs =>
    if room < out.length + (v.1.length + 1 + v.2.length + 1) then out
    else writeBucket room (out ++ record v) vs

/-- The four bytes of a word. -/
def le32 (v : Nat) : List UInt8 := (List.range 4).map (leByte v)

namespace Handle

/-- All tuples. The end is two bytes before that of the partition. -/
def written (h : Handle) : List UInt8 :=
  (List.range hashSize).foldl (fun out i => writeBucket (h.space - 2 - hdrSize) out (h.table i)) []

/-- `crc_ver_init`, `config_refresh` and `config_ncdl`, without the CRC. -/
def headerWords (h : Handle) : Nat × Nat × Nat :=
  match h.get sdramInit, h.get sdramConfig, h.get sdramRefresh, h.get sdramNcdl with
  | some init, some config, some refresh, some ncdl =>
    (1 <<< 8 ||| (strtoul init &&& 0xffff) <<< 16,
      (strtoul config &&& 0xffff) ||| (strtoul refresh &&& 0xffff) <<< 16, strtoul ncdl)
  | _, _, _, _ => (1 <<< 8 ||| 0x419 <<< 16, 0 ||| 0x8040 <<< 16, 0)

/-- The zeros behind the NUL that ends the data, up to a multiple of four. -/
def padding (h : Handle) : Nat :=
  let ptr := h.offset + hdrSize + h.written.length + 1
  if ptr % 4 = 0 then 0 else 4 - ptr % 4

/-- The data area: it is filled with 0xff before anything is written. -/
def newArea (h : Handle) : List UInt8 :=
  (h.written ++ 0 :: (List.replicate h.padding 0 ++ List.replicate (h.space - hdrSize) 0xff)).take
    (h.space - hdrSize)

/-- The new length. -/
def newLen (h : Handle) : Nat := roundup4 (hdrSize + h.written.length + 1 + 1)

/-- The new header; the CRC goes over its last 11 bytes and the data. -/
def newHeader (h : Handle) : List UInt8 :=
  let (ver, refresh, ncdl) := h.headerWords
  let tmp := le32 0 ++ le32 0 ++ le32 ver ++ le32 refresh ++ le32 ncdl
  let crc := hndcrc8 (h.newArea.take (h.newLen - hdrSize)) (hndcrc8 (tmp.drop 9) 0xff)
  le32 magic ++ le32 h.newLen ++ le32 (ver ||| crc.toNat) ++ le32 refresh ++ le32 ncdl

/-- The partition as it is written. -/
def newBytes (h : Handle) : List UInt8 := h.mmap.bytes.take h.offset ++ (h.newHeader ++ h.newArea)

theorem length_newHeader (h : Handle) : h.newHeader.length = hdrSize := by
  simp [newHeader, le32, hdrSize]

theorem length_newArea (h : Handle) : h.newArea.length = h.space - hdrSize := by
  unfold newArea
  rw [List.length_take]
  simp only [List.length_append, List.length_cons, List.length_replicate]
  omega

theorem length_newBytes (h : Handle) : h.newBytes.length = h.mmap.bytes.length := by
  have hroom := h.room
  have hmin : hdrSize ≤ minSpace := by decide
  rw [newBytes, List.length_append, List.length_append, length_newHeader, length_newArea,
    List.length_take, space]
  omega

/-- The partition after a commit. -/
def newPartition (h : Handle) : Partition where
  bytes := h.newBytes
  min_le := by
    rw [h.length_newBytes]
    exact h.mmap.min_le
  lt := by
    rw [h.length_newBytes]
    exact h.mmap.lt

/-- The handle with the partition written. -/
def image (h : Handle) : Handle where
  mmap := h.newPartition
  offset := h.offset
  room := by
    unfold newPartition
    rw [h.length_newBytes]
    exact h.room
  table := h.table

/-- `nvram_commit`. -/
def commit (h : Handle) : Option Handle := h.image.rehash

end Handle

end Lede.Nvram
