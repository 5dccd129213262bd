/-
Lede.MtdSplit.BcmWfi — the parsers that split a partition at a Broadcom whole flash image
(`drivers/mtd/mtdsplit/mtdsplit_bcm_wfi.c`).

An image is a file system of JFFS2 nodes with the loader and the kernel, and a UBI behind it.
`jffs2_find_file` goes over the erase blocks and, in each that starts with the JFFS2 magic, over the
directory entries by their lengths. What a read of a block puts into the buffer stands for the
memory behind the buffer as well; each walk comes with the list of the bytes it reads. A walk takes
a number of rounds and gives `none` when they do not suffice. A `loff_t` is a number here, for
no device comes near its bound.
-/
import Lede.MtdSplit.Mtd
import Lede.Lib.Access
import Lede.Lib.Words

namespace Lede.MtdSplit

open Lede.Lib

/-! ## Directory entries -/

def JFFS2_MAGIC_BITMASK : BitVec 16 := 0x1985
def JFFS2_NODETYPE_DIRENT : BitVec 16 := 0xe001

def ascii (s : String) : List UInt8 := s.toList.map fun c => UInt8.ofNat c.toNat

def CFERAM_NAME : List UInt8 := ascii "cferam"
def CFERAM_NAME_MAX_LEN : Nat := 32
def KERNEL_NAME : List UInt8 := ascii "vmlinux.lz"
def OPENWRT_NAME : List UInt8 := ascii "1-openwrt"
def UBI_MAGIC : BitVec 32 := 0x55424923
def CFE_MAGIC_PFX : List UInt8 := ascii "cferam."
def CFE_MAGIC_LEN : Nat := 10
def SERCOMM_MAGIC_PFX : List UInt8 := ascii "eRcOmM."
def SERCOMM_MAGIC_LEN : Nat := 10

def PART_CFERAM : String := "cferam"
def PART_FIRMWARE : String := "firmware"
def PART_IMAGE_1 : String := "img1"
def PART_IMAGE_2 : String := "img2"

/-- `!memcmp` of the bytes at an offset and a text. -/
def memEq (buf : Nat → UInt8) (off : Nat) (text : List UInt8) : Bool :=
  (List.range text.length).all fun i => buf (off + i) = text.getD i 0

section Node

variable (en : Endian) (buf : Nat → UInt8) (p : Nat)

/-- `jffs2_dirent_crc`: all of the node but its two checksums. -/
def jffs2DirentCrc : BitVec 32 := crc32Le 0 buf p 32

/-- The node says that it is a directory entry. -/
def direntMagic : Bool :=
  ld16 en buf p = JFFS2_MAGIC_BITMASK && ld16 en buf (p + 2) = JFFS2_NODETYPE_DIRENT

/-- `jffs2_dirent_valid` -/
def jffs2DirentValid : Bool :=
  direntMagic en buf p && ld32 en buf (p + 20) ≠ 0 && ld32 en buf (p + 32) = jffs2DirentCrc buf p

/-- The bytes that it reads. -/
def validReads : List Access :=
  ⟨p, 2⟩ ::
    if ld16 en buf p ≠ JFFS2_MAGIC_BITMASK then []
    else
      ⟨p + 2, 2⟩ ::
        if ld16 en buf (p + 2) ≠ JFFS2_NODETYPE_DIRENT then []
        else
          ⟨p + 20, 4⟩ ::
            if ld32 en buf (p + 20) = 0 then [] else [⟨p + 32, 4⟩, ⟨p, 32⟩]

/-- The name of the node at `p`, up to its length or a NUL. -/
def direntName : List UInt8 :=
  ((List.range (buf (p + 28)).toNat).map fun i => buf (p + 40 + i)).takeWhile (· ≠ 0)

/-- What `kstrndup` of it reads: the name, and the NUL behind it if that is inside the length. -/
def nameReads : List Access :=
  [⟨p + 28, 1⟩, ⟨p + 40, min ((direntName buf p).length + 1) (buf (p + 28)).toNat⟩]

/-- `block_offs` behind the node at `p`; it is an `unsigned int`. -/
def nodeBehind : Nat :=
  if jffs2DirentValid en buf p then
    ((p + (ld32 en buf (p + 4)).toNat) % 2 ^ 32 + 3) % 2 ^ 32 / 4 * 4
  else (p + 4) % 2 ^ 32

end Node

/-! ## Files -/

/-- What `jffs2_find_file` is asked for: a name, and whether the caller wants it back. -/
structure FileQuery where
  name : List UInt8
  out : Bool := false

/-- How the walk of a block ends: behind the block, with a file that is not to be there, or with the
file, its name and the length its node says. -/
inductive BlockWalk where
  | done (valid : Bool)
  | invalid
  | found (name : List UInt8) (nsize : Nat)

/-- How `jffs2_find_file` ends: in a block, or with an error. -/
inductive FindFile where
  | found (offs : Nat) (name : List UInt8) (nsize : Nat)
  | failed (ret : Int)

section Find

variable (m : Machine) (mtd : MtdInfo) (flash : Flash) (q : FileQuery)

/-- The loop over the nodes of a block from `p` on. -/
def walkNodes (buf : Nat → UInt8) : Nat → Bool → Nat → Option (BlockWalk × List Access)
  | 0, _, _ => none
  | n + 1, valid, p =>
    if p < mtd.erasesize then
      let reads := validReads m.endian buf p
      if !jffs2DirentValid m.endian buf p then
        (walkNodes buf n valid (nodeBehind m.endian buf p)).map fun x => (x.1, reads ++ x.2)
      else
        let reads := reads ++ [⟨p + 40, OPENWRT_NAME.length⟩]
        if memEq buf (p + 40) OPENWRT_NAME then
          (walkNodes buf n true (nodeBehind m.endian buf p)).map fun x =>
            (x.1, reads ++ ⟨p + 4, 4⟩ :: x.2)
        else
          let reads := reads ++ [⟨p + 40, q.name.length⟩]
          if memEq buf (p + 40) q.name then
            if !valid then some (.invalid, reads)
            else
              some (.found (direntName buf p) (buf (p + 28)).toNat,
                reads ++ if q.out then nameReads buf p else [])
          else
            (walkNodes buf n valid (nodeBehind m.endian buf p)).map fun x =>
              (x.1, reads ++ ⟨p + 4, 4⟩ :: x.2)
    else some (.done valid, [])

/-- What `jffs2_find_file` finds at an erase block: nothing to look at, an error, or a block. -/
inductive ReadBlock where
  | skip
  | failed (ret : Int)
  | block (buf : Nat → UInt8)

def readBlock (offs : Nat) : ReadBlock :=
  let r := flash offs 2
  if r.ret ≠ 0 ∨ r.retlen ≠ 2 then .skip
  else if ld16 m.endian r.buf 0 ≠ JFFS2_MAGIC_BITMASK then .skip
  else
    let r := flash offs mtd.erasesize
    if r.ret ≠ 0 then .failed r.ret
    else if r.retlen ≠ mtd.erasesize then .failed (-EINVAL)
    else .block r.buf

/-- The offsets of a loop from `offs` to before `last` by erase blocks. -/
def blockOffsets (offs : Nat) (last : Int) : List Nat :=
  (List.range (((last - offs).toNat + mtd.erasesize - 1) / mtd.erasesize)).map
    fun i => offs + i * mtd.erasesize

/-- The loop of `jffs2_find_file` over erase blocks. -/
def findFileIn (rounds : Nat) : List Nat → Bool → Option (FindFile × List Access)
  | [], _ => some (.failed (-ENOENT), [])
  | offs :: rest, valid =>
    match readBlock m mtd flash offs with
    | .skip => findFileIn rounds rest valid
    | .failed ret => some (.failed ret, [])
    | .block buf =>
      match walkNodes m mtd q buf rounds valid 0 with
      | none => none
      | some (.done valid, reads) =>
        (findFileIn rounds rest valid).map fun x => (x.1, reads ++ x.2)
      | some (.invalid, reads) => some (.failed (-EINVAL), reads)
      | some (.found name nsize, reads) => some (.found offs name nsize, reads)

/-- `jffs2_find_file` -/
def jffs2FindFile (rounds offs : Nat) (size : Int) : Option (FindFile × List Access) :=
  findFileIn m mtd flash q rounds (blockOffsets mtd offs (offs + size)) false

end Find

section Parser

variable (m : Machine) (mtd : MtdInfo) (flash : Flash)

/-- A block starts with the magic of UBI. -/
def ubiAt (offs : Nat) : Bool :=
  (flash offs 4).ret = 0 && (flash offs 4).retlen = 4 && ld32 .big (flash offs 4).buf 0 = UBI_MAGIC

/-- `ubifs_find` -/
def ubifsFind (offs : Nat) (size : Int) : Option Nat :=
  (blockOffsets mtd offs (offs + size)).find? (ubiAt flash)

/-- What a parser returns and stores; `none` for no array. -/
structure WfiParse where
  ret : Int
  parts : Option (List MtdPartition) := none
deriving DecidableEq

/-- The name that `parse_bcm_wfi` looks for: the one of the device node without its last
character. -/
def cferamQuery (name : Option (List UInt8)) : FileQuery :=
  let name := name.getD CFERAM_NAME
  { name := name.take (min name.length CFERAM_NAME_MAX_LEN - 1) }

/-- `parse_bcm_wfi` from the kernel on; with the offset of the loader, if that is a partition. -/
def parseKernel (rounds off size : Nat) (cfe : Option Nat) : Option WfiParse :=
  let start := (cfe.map (· + mtd.erasesize)).getD off
  match jffs2FindFile m mtd flash { name := KERNEL_NAME } rounds start
      (size - (start - off : Int)) with
  | none => none
  | some (.failed ret, _) => some ⟨ret, none⟩
  | some (.found kernel _ _, _) =>
    match ubifsFind mtd flash (kernel + mtd.erasesize)
        (size - ((kernel + mtd.erasesize : Nat) - off : Int)) with
    | none => some ⟨-ENOENT, none⟩
    | some rootfs =>
      let parts : List MtdPartition :=
        [⟨PART_FIRMWARE, kernel, (size - (kernel - off : Int)).toNat⟩,
          ⟨KERNEL_PART_NAME, kernel, rootfs - kernel⟩,
          ⟨UBI_PART_NAME, rootfs, (size - (rootfs - off : Int)).toNat⟩]
      match cfe with
      | some cfe => some ⟨4, some (⟨PART_CFERAM, cfe, kernel - cfe⟩ :: parts)⟩
      | none => some ⟨3, some parts⟩

/-- `parse_bcm_wfi` -/
def parseBcmWfi (cferam : Option (List UInt8)) (rounds off size : Nat) (cfePart : Bool) :
    Option WfiParse :=
  if cfePart then
    match jffs2FindFile m mtd flash (cferamQuery cferam) rounds off size with
    | none => none
    | some (.failed ret, _) => some ⟨ret, none⟩
    | some (.found cfe _ _, _) => parseKernel m mtd flash rounds off size (some cfe)
  else parseKernel m mtd flash rounds off size none

/-- The device node, as far as the parsers read it. -/
structure WfiNode where
  cferam : Option (List UInt8) := none
  noCferam : Bool := false

/-- `mtdsplit_parse_bcm_wfi` -/
def mtdsplitParseBcmWfi (np : Option WfiNode) (rounds : Nat) : Option WfiParse :=
  match np with
  | none => some ⟨-EINVAL, none⟩
  | some np => parseBcmWfi m mtd flash np.cferam rounds 0 mtd.size !np.noCferam

/-! ## Two images -/

/-- `char_to_num` -/
def charToNum (c : UInt8) : Int := if 0x30 ≤ c ∧ c ≤ 0x39 then (c - 0x30).toNat else 0

/-- The number behind a prefix of seven bytes. -/
def bootflag (byte : Nat → UInt8) : Int :=
  charToNum (byte 7) * 100 + charToNum (byte 8) * 10 + charToNum (byte 9)

/-- `cferam_bootflag_value` of the copy of a name, with what is in memory behind it. -/
def cferamBootflagValue (heap : Nat → UInt8) (file : Option (List UInt8 × Nat)) : Int :=
  match file with
  | none => -ENOENT
  | some (name, nsize) =>
    let byte i := if i < name.length then name.getD i 0 else if i = name.length then 0 else heap i
    if CFE_MAGIC_LEN ≤ nsize ∧ memEq byte 0 CFE_MAGIC_PFX then bootflag byte else -ENOENT

/-- An image of two, `off`, `size` and the name that it gets when it is inactive. -/
def image1 : MtdPartition := ⟨PART_IMAGE_1, 0, mtd.size / 2⟩
def image2 : MtdPartition := ⟨PART_IMAGE_2, mtd.size / 2, mtd.size - mtd.size / 2⟩

/-- The active image and the other. -/
def activeImage (bf₁ bf₂ : Int) : MtdPartition × MtdPartition :=
  if bf₂ ≤ bf₁ then (image1 mtd, image2 mtd) else (image2 mtd, image1 mtd)

/-- The end of `mtdsplit_parse_bcm_wfi_split` and of `mtdsplit_parse_ser_wfi`: the inactive image is
added, or the two images are stored. -/
def addInactive (inactive : MtdPartition) (parse : WfiParse) : WfiParse :=
  if 0 < parse.ret then ⟨parse.ret + 1, parse.parts.map (· ++ [inactive])⟩
  else ⟨parse.ret, some [image1 mtd, image2 mtd]⟩

/-- The loader of an image, its name and the length of that. -/
def findCferam (rounds : Nat) (image : MtdPartition) : Option (Option (List UInt8 × Nat)) :=
  match jffs2FindFile m mtd flash { name := CFERAM_NAME, out := true } rounds image.offset
      image.size with
  | none => none
  | some (.failed _, _) => some none
  | some (.found _ name nsize, _) => some (some (name, nsize))

/-- The active image of `mtdsplit_parse_bcm_wfi_split`, and the other. -/
def splitActive (heap : Nat → UInt8) (rounds : Nat) : Option (MtdPartition × MtdPartition) :=
  match findCferam m mtd flash rounds (image1 mtd), findCferam m mtd flash rounds (image2 mtd) with
  | some cfe₁, some cfe₂ =>
    some (activeImage mtd (cferamBootflagValue heap cfe₁) (cferamBootflagValue heap cfe₂))
  | _, _ => none

/-- `mtdsplit_parse_bcm_wfi_split` -/
def mtdsplitParseBcmWfiSplit (cferam : Option (List UInt8)) (heap : Nat → UInt8) (rounds : Nat) :
    Option WfiParse :=
  match splitActive m mtd flash heap rounds with
  | none => none
  | some (active, inactive) =>
    (parseBcmWfi m mtd flash cferam rounds active.offset active.size true).map
      (addInactive mtd inactive)

end Parser

/-- A device of its own with a boot flag. -/
structure BootflagDevice where
  mtd : MtdInfo
  flash : Flash

/-- `sercomm_bootflag_value` -/
def sercommBootflagValue (dev : BootflagDevice) : Int :=
  let here offs :=
    let r := dev.flash offs SERCOMM_MAGIC_LEN
    r.ret = 0 ∧ r.retlen = SERCOMM_MAGIC_LEN ∧ memEq r.buf 0 SERCOMM_MAGIC_PFX
  match (blockOffsets dev.mtd 0 dev.mtd.size).find? fun offs => decide (here offs) with
  | none => -ENOENT
  | some offs => bootflag (dev.flash offs SERCOMM_MAGIC_LEN).buf

/-- The active image of `mtdsplit_parse_ser_wfi`, and the other, and whether the second flag is
erased because both are the same. -/
def serActive (mtd : MtdInfo) (bf₁ bf₂ : BootflagDevice) :
    (MtdPartition × MtdPartition) × Bool :=
  let flag₁ := sercommBootflagValue bf₁
  let flag₂ := sercommBootflagValue bf₂
  if flag₁ = flag₂ ∧ 0 ≤ flag₂ then (activeImage mtd flag₁ (-ENOENT), true)
  else (activeImage mtd flag₁ flag₂, false)

/-- `mtdsplit_parse_ser_wfi`, with the devices named `bootflag1` and `bootflag2`, and whether it
erases the second. -/
def mtdsplitParseSerWfi (m : Machine) (mtd : MtdInfo) (flash : Flash)
    (cferam : Option (List UInt8)) (bf₁ bf₂ : Option BootflagDevice) (rounds : Nat) :
    Option (WfiParse × Bool) :=
  match bf₁, bf₂ with
  | some bf₁, some bf₂ =>
    let ((active, inactive), erase) := serActive mtd bf₁ bf₂
    (parseBcmWfi m mtd flash cferam rounds active.offset active.size false).map
      fun parse => (addInactive mtd inactive parse, erase)
  | _, _ => some (⟨-ENOENT, none⟩, false)

end Lede.MtdSplit
