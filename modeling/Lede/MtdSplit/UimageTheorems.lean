/-
Lede.MtdSplit.UimageTheorems — where the kernel and the root file system are put.

`parseUimage_two_iff`: when the parser returns 2, its two partitions are as they should be
exactly when the search stopped at a block that it accepted and the lengths of the image there
add up without wrapping.

The search keeps the size of an image that does not fit and forgets it in its next round. After
the last erase block there is no next round: the size is left over, the offset is behind the end
of the device, and that is where the kernel is put (`lastBlock_outside`).
-/
import Lede.MtdSplit.Uimage

namespace Lede.MtdSplit

open Lede.Lib

/-! ## What is promised -/

section

variable (m : Machine) (mtd : MtdInfo) (flash : Flash) (dt : UimageDt)

/-- What is read at an offset. -/
def bufAt (offset : Nat) : Nat → UInt8 := (flash offset (uimageBuflen m dt)).buf

/-- The header at an offset is read whole, and it passes all checks of its magics. -/
structure HeaderAt (offset : Nat) : Prop where
  read : (flash offset (uimageBuflen m dt)).ret = 0
  whole : (flash offset (uimageBuflen m dt)).retlen = uimageBuflen m dt
  room : dt.headerOffset.toNat + uimageHeaderLen ≤ uimageBuflen m dt
  partMagic : dt.headerOffset ≠ 0 → dt.partMagic ≠ 0 →
    ld32 .big (bufAt m flash dt offset) 0 = dt.partMagic
  magic : ld32 .big (headerOf dt (bufAt m flash dt offset)) 0 = dt.ihMagic
  os : headerOf dt (bufAt m flash dt offset) 28 = IH_OS_LINUX
  type : (headerOf dt (bufAt m flash dt offset) 30).toNat = dt.ihType.toNat

/-- The size of the image at an offset, without wrapping. -/
def totalAt (offset : Nat) : Int := uimageTotal dt (bufAt m flash dt offset)

/-- Both partitions are inside the device and apart, and the kernel starts at an erase block with
a header that passed the checks and an image that ends inside the device. -/
structure SplitOk (kernel rootfs : MtdPartition) : Prop where
  kernelInside : kernel.Inside mtd
  rootfsInside : rootfs.Inside mtd
  disjoint : kernel.Disjoint rootfs
  aligned : mtd.erasesize ∣ kernel.offset
  header : HeaderAt m flash dt kernel.offset
  imagePos : 0 < totalAt m flash dt kernel.offset
  imageInside : kernel.offset + totalAt m flash dt kernel.offset ≤ mtd.size

/-- The parser's own test of a block. -/
structure Accepted (offset : Nat) : Prop extends HeaderAt m flash dt offset where
  fits : m.sizeT.wrap (offset + m.sizeT.wrap (totalAt m flash dt offset) : Nat) ≤ mtd.size

/-- The offset of the search in round `b`. -/
def blockAt (b : Nat) : Nat := m.sizeT.wrap (b * mtd.erasesize : Nat)

/-- The search reaches round `b`. -/
def Reaches (b : Nat) : Prop :=
  ∀ i < b, blockAt m mtd i < mtd.size ∧ ¬ Accepted m mtd flash dt (blockAt m mtd i)

/-- The search stops at a block that it accepts, at an erase block, and the lengths there do not
wrap. On a 32-bit machine with a larger device a sum that wraps may still end inside it. -/
def StopsWell : Prop :=
  ∃ b, Reaches m mtd flash dt b ∧ blockAt m mtd b < mtd.size ∧
    Accepted m mtd flash dt (blockAt m mtd b) ∧ mtd.erasesize ∣ blockAt m mtd b ∧
    0 < totalAt m flash dt (blockAt m mtd b) ∧
    (blockAt m mtd b + totalAt m flash dt (blockAt m mtd b) < m.sizeT.modulus ∨
      blockAt m mtd b + totalAt m flash dt (blockAt m mtd b) ≤ mtd.size)

end

/-! ## One round -/

variable {m : Machine} {mtd : MtdInfo} {flash : Flash} {dt : UimageDt}

theorem uimageVerifyDefault_eq {header : Nat → UInt8} {ihMagic ihType : BitVec 32} :
    ¬ uimageVerifyDefault header ihMagic ihType < 0 ↔
      ld32 .big header 0 = ihMagic ∧ header 28 = IH_OS_LINUX ∧
        (header 30).toNat = ihType.toNat := by
  unfold uimageVerifyDefault
  split_ifs with h1 h2 h3
  · simp [EINVAL, h1]
  · simp [EINVAL, h2]
  · simp [EINVAL, h3]
  · simp only [ne_eq, not_not] at h1 h2 h3
    simp [h1, h2, h3]

theorem readUimageHeader_snd (offset len : Nat) :
    (readUimageHeader flash offset len).2 = (flash offset len).buf := by
  unfold readUimageHeader
  simp only
  split_ifs <;> rfl

theorem readUimageHeader_fst (offset len : Nat) :
    (readUimageHeader flash offset len).1 = 0 ↔
      (flash offset len).ret = 0 ∧ (flash offset len).retlen = len := by
  unfold readUimageHeader
  simp only
  split_ifs with h1 h2
  · simp [h1]
  · simp [ EIO, h2]
  · simp only [ne_eq, not_not] at h1 h2
    simp [h1, h2]

/-- A block is accepted, with the size of its image. -/
theorem uimageRound_found {offset size : Nat} :
    uimageRound m mtd flash dt offset = .found size ↔
      Accepted m mtd flash dt offset ∧ size = m.sizeT.wrap (totalAt m flash dt offset) := by
  unfold uimageRound
  simp only [readUimageHeader_snd]
  split_ifs with hread hpart hroom hverify hfits
  · rw [ne_eq, readUimageHeader_fst] at hread
    simp only [false_iff, not_and]
    exact fun h => absurd ⟨h.read, h.whole⟩ hread
  · simp only [false_iff, not_and]
    exact fun h => absurd (h.partMagic hpart.1 hpart.2.1) hpart.2.2
  · simp only [false_iff, not_and]
    exact fun h => absurd h.room (by omega)
  · simp only [false_iff, not_and]
    exact fun h => absurd hverify (uimageVerifyDefault_eq.mpr ⟨h.magic, h.os, h.type⟩)
  · simp only [false_iff, not_and]
    exact fun h => absurd h.fits (by simpa [totalAt, bufAt] using hfits)
  · rw [ne_eq, not_not, readUimageHeader_fst] at hread
    obtain ⟨hmagic, hos, htype⟩ := uimageVerifyDefault_eq.mp hverify
    have hacc : Accepted m mtd flash dt offset :=
      ⟨⟨hread.1, hread.2, by omega, fun h1 h2 => by
          by_contra h3
          exact hpart ⟨h1, h2, h3⟩, hmagic, hos, htype⟩, Nat.not_lt.mp hfits⟩
    rw [Round.found.injEq]
    exact ⟨fun h => ⟨hacc, h.symm⟩, fun h => h.2.symm⟩

/-! ## The search -/

theorem blockAt_zero : blockAt m mtd 0 = 0 := by
  simp [blockAt, SizeT.wrap]

theorem blockAt_succ (b : Nat) :
    m.sizeT.wrap (blockAt m mtd b + mtd.erasesize : Nat) = blockAt m mtd (b + 1) := by
  rw [blockAt, blockAt, SizeT.wrap_natCast, SizeT.wrap_natCast, SizeT.wrap_natCast,
    Nat.mod_add_mod, Nat.add_mul, Nat.one_mul]

/-- How the search ends: at an accepted block, or behind the device with the size of the last
image, if there was a round at all. -/
theorem findUimage_spec {n b last offset size : Nat} (hb : Reaches m mtd flash dt b)
    (h0 : b = 0 → last = 0)
    (h : findUimage m mtd flash dt n (blockAt m mtd b) last = some (some (offset, size))) :
    ∃ c, Reaches m mtd flash dt c ∧ blockAt m mtd c = offset ∧
      (offset < mtd.size ∧ Accepted m mtd flash dt offset ∧
          size = m.sizeT.wrap (totalAt m flash dt offset) ∨
        mtd.size ≤ offset ∧ (c = 0 → size = 0)) := by
  induction n generalizing b last with
  | zero => simp [findUimage] at h
  | succ n ih =>
    rw [findUimage] at h
    split_ifs at h with hlt
    · cases hr : uimageRound m mtd flash dt (blockAt m mtd b) with
      | fault => simp [hr] at h
      | next s =>
        rw [hr] at h
        simp only [blockAt_succ] at h
        refine ih (fun i hi => ?_) (fun hz => absurd hz (by omega)) h
        rcases Nat.lt_succ_iff_lt_or_eq.mp hi with hi | rfl
        · exact hb i hi
        · refine ⟨hlt, fun hacc => ?_⟩
          have := uimageRound_found.mpr ⟨hacc, rfl⟩
          rw [hr] at this
          cases this
      | found s =>
        rw [hr] at h
        simp only [Option.some_inj, Prod.mk.injEq] at h
        obtain ⟨rfl, rfl⟩ := h
        obtain ⟨hacc, hsize⟩ := uimageRound_found.mp hr
        exact ⟨b, hb, rfl, .inl ⟨hlt, hacc, hsize⟩⟩
    · simp only [Option.some_inj, Prod.mk.injEq] at h
      obtain ⟨rfl, rfl⟩ := h
      exact ⟨b, hb, rfl, .inr ⟨Nat.not_lt.mp hlt, h0⟩⟩

/-- The search stops at one block only. -/
theorem stop_unique {b c : Nat} (hb : Reaches m mtd flash dt b) (hc : Reaches m mtd flash dt c)
    (hacc : Accepted m mtd flash dt (blockAt m mtd b))
    (hend : mtd.size ≤ blockAt m mtd c ∨ Accepted m mtd flash dt (blockAt m mtd c)) : b = c := by
  rcases Nat.lt_trichotomy b c with h | h | h
  · exact absurd hacc (hc b h).2
  · exact h
  · rcases hend with hend | hend
    · exact absurd (hb c h).1 (Nat.not_lt.mpr hend)
    · exact absurd hend (hb c h).2

/-! ## The partitions -/

/-- The partitions as returned: one of them is the kernel. -/
def PartsOk (m : Machine) (mtd : MtdInfo) (flash : Flash) (dt : UimageDt)
    (parts : List MtdPartition) : Prop :=
  ∃ kernel rootfs, (parts = [kernel, rootfs] ∨ parts = [rootfs, kernel]) ∧
    kernel.name = KERNEL_PART_NAME ∧ rootfs.name ≠ KERNEL_PART_NAME ∧
    SplitOk m mtd flash dt kernel rootfs

theorem rootfsPartName_ne (type : PartType) : rootfsPartName type ≠ KERNEL_PART_NAME := by
  unfold rootfsPartName
  split_ifs <;> decide

/-- What is returned with 2: the kernel first and the root file system found behind the image, or
the root file system at 0 and the kernel behind it. -/
theorem splitUimage_two {rounds offset size : Nat} {parts : List MtdPartition}
    (h : splitUimage m mtd flash rounds offset size = some (.ret 2 parts)) :
    size ≠ 0 ∧ ∃ kernel rootfs : MtdPartition,
      (parts = [kernel, rootfs] ∨ parts = [rootfs, kernel]) ∧
      kernel.name = KERNEL_PART_NAME ∧ rootfs.name ≠ KERNEL_PART_NAME ∧ kernel.offset = offset ∧
      (offset = 0 ∧ kernel.size ≤ rootfs.offset ∧ rootfs.offset + rootfs.size ≤ mtd.size ∨
        offset ≠ 0 ∧ kernel.size = size ∧ rootfs.offset = 0 ∧ rootfs.size = offset) := by
  unfold splitUimage at h
  split_ifs at h with hsize hoffset
  · simp at h
  · refine ⟨hsize, ?_⟩
    cases hfind : mtdFindRootfsFrom m mtd flash (m.sizeT.wrap mtd.size) rounds
        (m.sizeT.wrap (offset + size : Nat)) with
    | none =>
      rw [hfind] at h
      cases h
    | some res =>
      rw [hfind] at h
      cases res with
      | error e => simp at h
      | ok res =>
        obtain ⟨r, type⟩ := res
        simp only at h
        split_ifs at h with hz
        · simp [ENODEV] at h
        · simp only [Option.some_inj, Parse.ret.injEq, true_and] at h
          have hr := (mtdFindRootfsFrom_ok hfind).1
          have hle := m.sizeT.wrap_natCast_le mtd.size
          subst hoffset
          refine ⟨_, _, .inl h.symm, rfl, rootfsPartName_ne type, rfl, .inl ⟨rfl, ?_, ?_⟩⟩
          · simpa using m.sizeT.wrap_natCast_le r
          · have hsub : ((mtd.size : Int) - r) = (mtd.size - r : Nat) := by omega
            have := m.sizeT.wrap_natCast_le (mtd.size - r)
            simp only [hsub]
            omega
  · refine ⟨hsize, ?_⟩
    cases hc : mtdCheckRootfsMagic m.endian flash 0 with
    | error e => simp [hc] at h
    | ok type =>
      rw [hc] at h
      simp only [Option.some_inj, Parse.ret.injEq, true_and] at h
      exact ⟨_, _, .inr h.symm, rfl, rootfsPartName_ne type, rfl, .inr ⟨hoffset, rfl, rfl, rfl⟩⟩

/-- With two partitions the search has come to an end. -/
theorem parseUimage_two {np : Option UimageNode} {rounds : Nat} {parts : List MtdPartition}
    (h : mtdsplitParseUimage m mtd flash np rounds = some (.ret 2 parts)) :
    ∃ offset size,
      findUimage m mtd flash (uimageParseDt np) rounds 0 0 = some (some (offset, size)) ∧
        splitUimage m mtd flash rounds offset size = some (.ret 2 parts) := by
  unfold mtdsplitParseUimage at h
  simp only at h
  split_ifs at h with hbuf
  · simp [ENOMEM] at h
  · cases hf : findUimage m mtd flash (uimageParseDt np) rounds 0 0 with
    | none => simp [hf] at h
    | some res =>
      rw [hf] at h
      cases res with
      | none => simp at h
      | some res => exact ⟨res.1, res.2, rfl, h⟩

/-- An accepted block with a sum that does not wrap has its image, and the part of it that is
computed, inside the device. -/
theorem Accepted.inside {offset : Nat} (h : Accepted m mtd flash dt offset)
    (hpos : 0 < totalAt m flash dt offset)
    (hsum : offset + totalAt m flash dt offset < m.sizeT.modulus ∨
      offset + totalAt m flash dt offset ≤ mtd.size) :
    offset + totalAt m flash dt offset ≤ mtd.size ∧
      offset + m.sizeT.wrap (totalAt m flash dt offset) ≤ mtd.size := by
  obtain ⟨t, ht⟩ := Int.eq_ofNat_of_zero_le (Int.le_of_lt hpos)
  have hfits := h.fits
  rw [ht] at hfits hsum ⊢
  have hle := m.sizeT.wrap_natCast_le t
  rcases hsum with hsum | hsum
  · have hwt : m.sizeT.wrap t = t := by
      rw [SizeT.wrap_natCast, Nat.mod_eq_of_lt (by omega)]
    rw [hwt, SizeT.wrap_natCast, Nat.mod_eq_of_lt (by omega)] at hfits
    rw [hwt]
    omega
  · omega

/-- When the parser returns 2, the partitions are as they should be exactly when the search
stopped well. -/
theorem parseUimage_two_iff (m : Machine) (mtd : MtdInfo) (flash : Flash)
    (np : Option UimageNode) (rounds : Nat) (parts : List MtdPartition)
    (h : mtdsplitParseUimage m mtd flash np rounds = some (.ret 2 parts)) :
    PartsOk m mtd flash (uimageParseDt np) parts ↔
      StopsWell m mtd flash (uimageParseDt np) := by
  obtain ⟨offset, size, hfind, hsplit⟩ := parseUimage_two h
  obtain ⟨hsize, kernel, rootfs, hparts, hk, hr, hoff, hcase⟩ := splitUimage_two hsplit
  have hzero : Reaches m mtd flash (uimageParseDt np) 0 := fun i hi => absurd hi (by omega)
  obtain ⟨c, hc, hblock, hend⟩ := findUimage_spec hzero (fun _ => rfl)
    (by rw [blockAt_zero]; exact hfind)
  constructor
  · rintro ⟨kernel', rootfs', hparts', hk', hr', hok⟩
    obtain rfl : kernel' = kernel := by
      rcases hparts with rfl | rfl <;> rcases hparts' with hp | hp <;>
        simp only [List.cons.injEq, and_true] at hp
      · exact hp.1.symm
      · exact absurd (hp.1 ▸ hk) hr'
      · exact absurd (hp.2 ▸ hk) hr'
      · exact hp.2.symm
    rcases hend with ⟨hlt, hacc, -⟩ | ⟨hge, hfirst⟩
    · refine ⟨c, hc, by rw [hblock]; exact hlt, by rw [hblock]; exact hacc, ?_, ?_, ?_⟩
      · rw [hblock, ← hoff]
        exact hok.aligned
      · rw [hblock, ← hoff]
        exact hok.imagePos
      · rw [hblock, ← hoff]
        exact .inr hok.imageInside
    · -- the kernel is behind the device
      have hpos : 0 < mtd.size := by
        rcases Nat.eq_zero_or_pos c with hc0 | hc0
        · exact absurd (hfirst hc0) hsize
        · have := (hc 0 hc0).1
          omega
      have hin : kernel'.offset + kernel'.size ≤ mtd.size := hok.kernelInside
      rcases hcase with ⟨ho, -, -⟩ | ⟨-, hks, -, -⟩ <;> omega
  · rintro ⟨b, hb, hlt, hacc, halign, hpos, hsum⟩
    have hbc : b = c := by
      refine stop_unique hb hc hacc ?_
      rw [hblock]
      rcases hend with ⟨-, hacc', -⟩ | ⟨hge, -⟩
      · exact .inr hacc'
      · exact .inl hge
    subst hbc
    rw [hblock] at hlt hacc halign hpos hsum
    have hs : size = m.sizeT.wrap (totalAt m flash (uimageParseDt np) offset) := by
      rcases hend with ⟨-, -, hs⟩ | ⟨hge, -⟩
      · exact hs
      · omega
    obtain ⟨himg, hcomp⟩ := hacc.inside hpos hsum
    rw [← hs] at hcomp
    subst hoff
    refine ⟨kernel, rootfs, hparts, hk, hr, ?_, ?_, ?_, halign, hacc.toHeaderAt, hpos, himg⟩
    · unfold MtdPartition.Inside
      rcases hcase with ⟨h0, h1, h2⟩ | ⟨-, h1, -, -⟩ <;> omega
    · unfold MtdPartition.Inside
      rcases hcase with ⟨-, -, h2⟩ | ⟨-, -, h2, h3⟩ <;> omega
    · rcases hcase with ⟨h0, h1, -⟩ | ⟨-, -, h2, h3⟩
      · exact .inl (by omega)
      · exact .inr (by omega)

/-! ## The last erase block -/

/-- A kernel image header of Linux with the size `hi * 65536`. -/
def kernelHeader (hi : UInt8) : Nat → UInt8
  | 0 => 0x27 | 1 => 0x05 | 2 => 0x19 | 3 => 0x56
  | 13 => hi
  | 28 => 5 | 30 => 2
  | _ => 0

/-- Two erase blocks of 64 KiB. -/
def twoBlocks : MtdInfo := ⟨0x20000, 0x10000, by decide, block64K_lt⟩

/-- `hsqs` at `at` and a kernel header at the other block. -/
def splitFlash (root kernel : Nat) (hi : UInt8) : Flash :=
  flashOf fun a =>
    if kernel ≤ a ∧ a < kernel + 64 then kernelHeader hi (a - kernel)
    else if a = root then 0x68 else if a = root + 1 then 0x73
    else if a = root + 2 then 0x71 else if a = root + 3 then 0x73 else 0

/-- What the machine returns for a kernel of no data at 0 and a root file system behind it, and for
a root file system at 0 and a kernel in the last block that does not fit. -/
theorem twoBlocks_parts :
    mtdsplitParseUimage pc twoBlocks (splitFlash 0x10000 0 0) none 4 = some (.ret 2
        [⟨KERNEL_PART_NAME, 0, 0x10000⟩, ⟨ROOTFS_PART_NAME, 0x10000, 0x10000⟩]) ∧
      mtdsplitParseUimage pc twoBlocks (splitFlash 0 0x10000 1) none 4 = some (.ret 2
        [⟨ROOTFS_PART_NAME, 0, 0x20000⟩, ⟨KERNEL_PART_NAME, 0x20000, 0x10040⟩]) := by
  decide +kernel

theorem firstBlock_inside :
    PartsOk pc twoBlocks (splitFlash 0x10000 0 0) (uimageParseDt none)
      [⟨KERNEL_PART_NAME, 0, 0x10000⟩, ⟨ROOTFS_PART_NAME, 0x10000, 0x10000⟩] := by
  refine (parseUimage_two_iff pc twoBlocks (splitFlash 0x10000 0 0) none 4 _
    twoBlocks_parts.1).mpr ?_
  refine ⟨0, fun i hi => absurd hi (by omega), by decide, ?_, Nat.dvd_zero _, by decide,
    .inl (by decide)⟩
  exact ⟨⟨rfl, rfl, by decide, fun h => absurd rfl h, by decide, rfl, rfl⟩, by decide⟩

/-- The image in the last block does not fit, and the kernel is put behind the device. -/
theorem lastBlock_outside :
    mtdsplitParseUimage pc twoBlocks (splitFlash 0 0x10000 1) none 4 = some (.ret 2
        [⟨ROOTFS_PART_NAME, 0, 0x20000⟩, ⟨KERNEL_PART_NAME, 0x20000, 0x10040⟩]) ∧
      ¬ PartsOk pc twoBlocks (splitFlash 0 0x10000 1) (uimageParseDt none)
        [⟨ROOTFS_PART_NAME, 0, 0x20000⟩, ⟨KERNEL_PART_NAME, 0x20000, 0x10040⟩] := by
  refine ⟨twoBlocks_parts.2, ?_⟩
  rintro ⟨kernel, rootfs, hparts, hk, -, hok⟩
  rcases hparts with h | h <;> simp only [List.cons.injEq, and_true] at h
  · rw [← h.1] at hk
    exact absurd hk (by decide)
  · have hin := hok.kernelInside
    rw [← h.2] at hin
    exact absurd hin (by unfold MtdPartition.Inside; decide)

end Lede.MtdSplit
