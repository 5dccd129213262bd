/-
Lede.MtdSplit.Mtd — what the parsers of firmware partitions read and compute
(`drivers/mtd/mtdsplit/mtdsplit.c`, `mtdsplit.h` and the helpers that the
mtdsplit patch adds to `mtd.h`).

A flash is what its reads give: for an offset and a length an error, a number
of bytes and the bytes. Sizes of the device are 64 bits wide, its erase size 32,
and offsets in a parser are a `size_t`, which has 32 bits on some machines; what
a type cuts off is cut off here.

A loop over the flash takes a number of rounds and gives `none` when they do
not suffice, for an offset may wrap.
-/
import Lede.Lib.Checksum

namespace Lede.MtdSplit

open Lede.Lib

/-! ## Machines and devices -/

/-- The width of `size_t`. -/
inductive SizeT where
  | bits32
  | bits64
deriving DecidableEq, Repr

def SizeT.modulus : SizeT → Nat
  | .bits32 => 2 ^ 32
  | .bits64 => 2 ^ 64

/-- A number as a `size_t`. -/
def SizeT.wrap (w : SizeT) (x : Int) : Nat := (x % w.modulus).toNat

/-- The machine that a parser runs on. -/
structure Machine where
  sizeT : SizeT
  endian : Endian

/-- `struct mtd_info`, as far as a parser reads it. -/
structure MtdInfo where
  size : Nat
  erasesize : Nat
  size_lt : size < 2 ^ 64
  erasesize_lt : erasesize < 2 ^ 32

theorem block64K_lt : 0x10000 < 2 ^ 32 := by decide

def pc : Machine := ⟨.bits64, .little⟩

/-- What `mtd_read` returns, sets `retlen` to and puts into the buffer. -/
structure ReadResult where
  ret : Int
  retlen : Nat
  buf : Nat → UInt8

/-- The outcome of every read, by its offset and its length. -/
abbrev Flash := Nat → Nat → ReadResult

/-- Bytes at offsets, as a flash that is read whole. -/
def flashOf (bytes : Nat → UInt8) : Flash := fun offset len => ⟨0, len, fun i => bytes (offset + i)⟩

def ENOENT : Int := 2
def ENOMEM : Int := 12
def ENODEV : Int := 19
def EINVAL : Int := 22
def EIO : Int := 5

/-- Bytes at offsets, as the flash of a device that refuses to read outside of it. -/
def deviceOf (mtd : MtdInfo) (bytes : Nat → UInt8) : Flash := fun offset len =>
  if offset + len ≤ mtd.size then flashOf bytes offset len else ⟨-EINVAL, 0, fun _ => 0⟩

/-- What `mtd_read` keeps to: it fails outside of the device, and errors are negative. -/
structure MtdReads (mtd : MtdInfo) (flash : Flash) : Prop where
  inside : ∀ offset len, (flash offset len).ret = 0 → offset + len ≤ mtd.size
  ret_nonpos : ∀ offset len, (flash offset len).ret ≤ 0

/-- `struct mtd_partition`, as far as a parser sets it. -/
structure MtdPartition where
  name : String
  offset : Nat
  size : Nat
deriving DecidableEq, Repr

/-- The partition ends inside the device. -/
def MtdPartition.Inside (p : MtdPartition) (mtd : MtdInfo) : Prop := p.offset + p.size ≤ mtd.size

def MtdPartition.Disjoint (p q : MtdPartition) : Prop :=
  p.offset + p.size ≤ q.offset ∨ q.offset + q.size ≤ p.offset

instance (p : MtdPartition) (mtd : MtdInfo) : Decidable (p.Inside mtd) :=
  inferInstanceAs (Decidable (_ ≤ _))

instance (p q : MtdPartition) : Decidable (p.Disjoint q) := inferInstanceAs (Decidable (_ ∨ _))

/-- How a parser ends: it reads outside of a buffer, or it returns a number and has stored
partitions. -/
inductive Parse where
  | fault
  | ret (r : Int) (parts : List MtdPartition)
deriving DecidableEq, Repr

/-! ## Erase blocks -/

/-- `mtd_mod_by_eb` -/
def mtdModByEb (sz : Nat) (mtd : MtdInfo) : Nat := sz % mtd.erasesize

/-- `mtd_div_by_eb`, a `uint32_t` -/
def mtdDivByEb (sz : Nat) (mtd : MtdInfo) : Nat := sz / mtd.erasesize % 2 ^ 32

/-- `mtd_rounddown_to_eb` -/
def mtdRounddownToEb (sz : Nat) (mtd : MtdInfo) : Nat :=
  if mtdModByEb sz mtd = 0 then sz else mtdDivByEb sz mtd * mtd.erasesize % 2 ^ 32

/-- `mtd_next_eb`, as the offset it is assigned to -/
def mtdNextEb (w : SizeT) (mtd : MtdInfo) (offset : Nat) : Nat :=
  w.wrap (mtdRounddownToEb offset mtd + mtd.erasesize : Nat)

/-! ## The root file system -/

/-- `enum mtdsplit_part_type` -/
inductive PartType where
  | unk
  | squashfs
  | jffs2
  | ubi
deriving DecidableEq, Repr

def KERNEL_PART_NAME : String := "kernel"
def ROOTFS_PART_NAME : String := "rootfs"
def UBI_PART_NAME : String := "ubi"
/-- `SQUASHFS_MAGIC` of `linux/magic.h` -/
def SQUASHFS_MAGIC : BitVec 32 := 0x73717368
def UBI_EC_MAGIC : BitVec 32 := 0x55424923

/-- `mtd_check_rootfs_magic` -/
def mtdCheckRootfsMagic (en : Endian) (flash : Flash) (offset : Nat) : Except Int PartType :=
  let r := flash offset 4
  if r.ret ≠ 0 then .error r.ret
  else if r.retlen ≠ 4 then .error (- EIO)
  else if ld32 .little r.buf 0 = SQUASHFS_MAGIC then .ok .squashfs
  else if ld32 en r.buf 0 = 0x19852003 then .ok .jffs2
  else if ld32 .big r.buf 0 = UBI_EC_MAGIC then .ok .ubi
  else .error (-EINVAL)

/-- `mtd_find_rootfs_from` from an offset on -/
def mtdFindRootfsFrom (m : Machine) (mtd : MtdInfo) (flash : Flash) (limit : Nat) :
    Nat → Nat → Option (Except Int (Nat × PartType))
  | 0, _ => none
  | n + 1, offset =>
    if offset < limit then
      match mtdCheckRootfsMagic m.endian flash offset with
      | .ok type => some (.ok (offset, type))
      | .error _ => mtdFindRootfsFrom m mtd flash limit n (mtdNextEb m.sizeT mtd offset)
    else some (.error (-ENODEV))

/-- The name of the partition with a root file system of the type. -/
def rootfsPartName (type : PartType) : String :=
  if type = .ubi then UBI_PART_NAME else ROOTFS_PART_NAME

/-! ## What holds of them -/

variable {m : Machine} {mtd : MtdInfo} {flash : Flash} {limit n offset : Nat}

theorem SizeT.wrap_natCast (w : SizeT) (x : Nat) : w.wrap x = x % w.modulus := by
  rw [SizeT.wrap, ← Int.natCast_emod, Int.toNat_natCast]

theorem SizeT.wrap_natCast_le (w : SizeT) (x : Nat) : w.wrap x ≤ x := by
  rw [w.wrap_natCast]
  exact Nat.mod_le _ _

theorem deviceOf_reads (mtd : MtdInfo) (bytes : Nat → UInt8) :
    MtdReads mtd (deviceOf mtd bytes) where
  inside := by
    intro offset len h
    unfold deviceOf at h
    split at h
    · assumption
    · exact absurd h (by decide)
  ret_nonpos := by
    intro offset len
    unfold deviceOf
    split
    · exact Int.le_refl 0
    · decide

/-- The root file system that is found starts before the limit, and its magic was read there. -/
theorem mtdFindRootfsFrom_ok {r : Nat} {type : PartType}
    (h : mtdFindRootfsFrom m mtd flash limit n offset = some (.ok (r, type))) :
    r < limit ∧ mtdCheckRootfsMagic m.endian flash r = .ok type := by
  induction n generalizing offset with
  | zero => simp [mtdFindRootfsFrom] at h
  | succ n ih =>
    rw [mtdFindRootfsFrom] at h
    split_ifs at h with hlt
    · cases hc : mtdCheckRootfsMagic m.endian flash offset with
      | ok t =>
        rw [hc] at h
        simp only [Option.some_inj, Except.ok.injEq, Prod.mk.injEq] at h
        obtain ⟨rfl, rfl⟩ := h
        exact ⟨hlt, hc⟩
      | error e =>
        rw [hc] at h
        exact ih h
    · simp at h

end Lede.MtdSplit
