/-
Lede.RouterBoot.HardConfig — `rb_hardconfig.c`: the byte ranges the driver takes
out of the RouterBOOT "hard_config" segment.

The driver reads the segment once, looks up the known tags and hands their
payloads to show routines. The payload of the WLAN tag is one of three things:
RLE data, an ERD container (a tag list with LZO data in it) or an LZOR container
(LZO data that, behind a fixed text, unpack to a tag list with RLE data in it).

Every function here returns, next to whether it succeeded, the ranges it hands on
(`Handed`). A length that C computes by a subtraction is an `Int` there; what the
driver goes on with is the value in a `size_t` of 32 bits. Memory has no end, so an
access behind a buffer reads something.

LZO is not part of this repository. It is a parameter (`Lzo`), with the text the
LZOR data go behind.
-/
import Lede.RouterBoot.TagFind

namespace Lede.RouterBoot

open Lede.Lib

/-! ## Ranges -/

/-- Who gets a range. -/
inductive Consumer where
  | show
  | tagFind
  | lzo
  | rle
  deriving DecidableEq, Repr

/-- A range and the size of the buffer it was taken from. -/
structure Handed where
  consumer : Consumer
  size : Nat
  ofs : Nat
  len : Int
  deriving DecidableEq, Repr

/-- The range lies in its buffer. -/
def Handed.Inside (h : Handed) : Prop := 0 ≤ h.len ∧ h.ofs + h.len ≤ h.size

instance (h : Handed) : Decidable h.Inside := inferInstanceAs (Decidable (_ ∧ _))

/-- A length in a `size_t`. -/
def sizeT (len : Int) : Nat := (len % 2 ^ 32).toNat

/-! ## Decoders -/

/-- What `lzo1x_decompress_safe` returns. -/
inductive LzoRet where
  | ok
  | inputNotConsumed
  | error
  deriving DecidableEq, Repr

/-- The decompressor: from the bytes, their number and the room for the output to the
return value, the length of the output and the output, which fits the room.
`lzorText` is `hc_lzor_prefix`. -/
structure Lzo where
  decompress : (Nat → UInt8) → Nat → Nat → LzoRet × Nat × (Nat → UInt8)
  outlen_le : ∀ src n room, (decompress src n room).2.1 ≤ room
  lzorText : Nat → UInt8

/-- `sizeof(hc_lzor_prefix)`. -/
def lzorTextSize : Nat := 1380

/-- `RB_ART_SIZE`. -/
def rbArtSize : Nat := 0x10000

/-- The loop of `routerboot_rle_decode`, with `inlen` bytes left at `pos` and `nbytes`
bytes of output so far; `n` bounds the runs. -/
def rleLoop (m : Nat → UInt8) (outlen : Nat) : Nat → Nat → Nat → Nat → Bool
  | 0, _, _, _ => true
  | n + 1, pos, inlen, nbytes =>
    if inlen < 2 then true
    else
      let run := (m pos).toNat
      if 128 ≤ run then
        let run := 256 - run
        if inlen - 1 < run ∨ outlen < nbytes + run then false
        else rleLoop m outlen n (pos + 1 + run) (inlen - 1 - run) (nbytes + run)
      else if outlen < nbytes + run then false
      else rleLoop m outlen n (pos + 2) (inlen - 2) (nbytes + run)

/-- `routerboot_rle_decode`: whether it returns 0. -/
def routerbootRleDecode (m : Nat → UInt8) (inlen outlen : Nat) : Bool :=
  decide (2 ≤ inlen) && rleLoop m outlen inlen 0 inlen 0

/-! ## WLAN data -/

/-- `RB_MAGIC_HARD`, `RB_MAGIC_LZOR` and `RB_MAGIC_ERD`. -/
def rbMagicHard : Nat := 0x64726148
def rbMagicLzor : Nat := 0x524f5a4c
def rbMagicErd : Nat := 0x00455244

/-- `RB_WLAN_ERD_ID_SOLO`, and the two tags of the newer scheme. -/
def erdIdSolo : Nat := 0x0001
def erdIdMulti : List Nat := [0x8001, 0x8201]

/-- The bytes from `o` on. -/
def behind (m : Nat → UInt8) (o : Nat) : Nat → UInt8 := fun i => m (o + i)

section Wlan

variable (lzo : Lzo)

/-- `hc_wlan_data_unpack_erd` on the `inlen` bytes at `inbuf`. -/
def hcWlanDataUnpackErd (tagId : Nat) (inbuf : Nat → UInt8) (inlen : Nat) : List Handed × Bool :=
  match routerbootTagFind inbuf inlen tagId with
  | none => ([], false)
  | some p =>
    if inlen < p.len then ([], false)
    else
      ([⟨.lzo, inlen, p.ofs, p.len⟩],
        (lzo.decompress (behind inbuf p.ofs) p.len rbArtSize).1 == .ok)

/-- The search for `RB_MAGIC_ERD` in the `templen` bytes at `tempbuf`, from word `k`
on; `n` bounds the words. The offset behind the magic. -/
def needleLoop (tempbuf : Nat → UInt8) (templen : Nat) : Nat → Nat → Option Nat
  | 0, _ => none
  | n + 1, k =>
    if get32 tempbuf (4 * k) = rbMagicErd then some (4 * (k + 1))
    else if templen ≤ 4 * (k + 1) then none
    else needleLoop tempbuf templen n (k + 1)

/-- The decompressed data of `hc_wlan_data_unpack_lzor`: `hc_lzor_prefix` and the
`inlen` bytes at `inbuf`, unpacked. -/
def lzorUnpacked (inbuf : Nat → UInt8) (inlen : Nat) : LzoRet × Nat × (Nat → UInt8) :=
  lzo.decompress (fun i => if i < lzorTextSize then lzo.lzorText i else inbuf (i - lzorTextSize))
    (sizeT (inlen + lzorTextSize)) rbArtSize

/-- `hc_wlan_data_unpack_lzor` behind the magic: look up the tag in the `len` bytes at
`needle`. -/
def lzorTag (tagId : Nat) (needle : Nat → UInt8) (len : Nat) : List Handed × Bool :=
  match routerbootTagFind needle len tagId with
  | none => ([], false)
  | some p =>
    if len < p.len then ([], false)
    else ([⟨.rle, len, p.ofs, p.len⟩], routerbootRleDecode (behind needle p.ofs) p.len rbArtSize)

/-- `hc_wlan_data_unpack_lzor` on the `inlen` bytes at `inbuf`. -/
def hcWlanDataUnpackLzor (tagId : Nat) (inbuf : Nat → UInt8) (inlen : Nat) : List Handed × Bool :=
  let lzoLen := sizeT (inlen + lzorTextSize)
  if rbArtSize < lzoLen then ([], false)
  else
    let handed := [⟨.lzo, rbArtSize, 0, lzoLen⟩]
    let (ret, templen, tempbuf) := lzorUnpacked lzo inbuf inlen
    if ret = .error then (handed, false)
    else
      match needleLoop tempbuf templen (templen + 1) 0 with
      | none => (handed, false)
      | some needle =>
        let len : Int := templen - needle
        let (more, ok) := lzorTag tagId (behind tempbuf needle) (sizeT len)
        (handed ++ ⟨.tagFind, templen, needle, len⟩ :: more, ok)

/-- `hc_wlan_data_unpack` of the `tlen` bytes at `tofs` of the segment `m`, `hc_buflen`
bytes long. The range behind a magic goes to `routerboot_tag_find`, or through a copy
to the LZO decompressor. -/
def hcWlanDataUnpack (m : Nat → UInt8) (hcBuflen tagId tofs tlen : Nat) : List Handed × Bool :=
  if hcBuflen < tofs + tlen then ([], false)
  else
    let magic := get32 m tofs
    let len : Int := tlen - 4
    if magic = rbMagicLzor then
      let (more, ok) := hcWlanDataUnpackLzor lzo tagId (behind m (tofs + 4)) (sizeT len)
      (⟨.lzo, hcBuflen, tofs + 4, len⟩ :: more, ok)
    else if magic = rbMagicErd then
      let (more, ok) := hcWlanDataUnpackErd lzo tagId (behind m (tofs + 4)) (sizeT len)
      (⟨.tagFind, hcBuflen, tofs + 4, len⟩ :: more, ok)
    else if tagId = erdIdSolo then
      ([⟨.rle, hcBuflen, tofs, tlen⟩], routerbootRleDecode (behind m tofs) tlen rbArtSize)
    else ([], false)

end Wlan

/-! ## The driver -/

/-- The known tags, `hc_attrs`. -/
inductive HcTag where
  | flashInfo
  | macAddressPack
  | boardProductCode
  | biosVersion
  | serialNumber
  | memorySize
  | macAddressCount
  | hwOptions
  | wlanData
  | boardIdentifier
  | productName
  | defconf
  | boardRevision
  deriving DecidableEq, Repr

/-- `tag_id`. -/
def HcTag.tagId : HcTag → Nat
  | flashInfo => 0x03
  | macAddressPack => 0x04
  | boardProductCode => 0x05
  | biosVersion => 0x06
  | serialNumber => 0x0b
  | memorySize => 0x0d
  | macAddressCount => 0x0e
  | hwOptions => 0x15
  | wlanData => 0x16
  | boardIdentifier => 0x17
  | productName => 0x21
  | defconf => 0x26
  | boardRevision => 0x27

/-- `hc_attrs`, in the order of the source. -/
def hcAttrs : List HcTag :=
  [.flashInfo, .macAddressPack, .boardProductCode, .biosVersion, .serialNumber, .memorySize,
   .macAddressCount, .hwOptions, .wlanData, .boardIdentifier, .productName, .defconf, .boardRevision]

/-- A segment: at least the magic, and a whole number of words. -/
structure HardPart where
  size : Nat
  size_ge : 4 ≤ size
  dvd_size : 4 ∣ size
  mem : Nat → UInt8

section Driver

variable (lzo : Lzo) (part : HardPart)

/-- `pld_ofs` and `pld_len` of a tag after `rb_hardconfig_init`. -/
def hcPayload (tag : HcTag) : Payload :=
  match routerbootTagFind (behind part.mem 4) (part.size - 4) tag.tagId with
  | none => ⟨0, 0⟩
  | some p => ⟨(p.ofs + 4) % 65536, p.len⟩

/-- What `rb_hardconfig_init` hands to `routerboot_tag_find`. -/
def initRange : Handed := ⟨.tagFind, part.size, 4, (part.size : Int) - 4⟩

/-- What `hc_attr_show` hands to `tshow`. -/
def hcAttrShow (tag : HcTag) : List Handed :=
  let p := hcPayload part tag
  if p.len = 0 then [] else [⟨.show, part.size, p.ofs, p.len⟩]

/-- `hc_wlan_data_unpack` for one tag of the WLAN data, from `rb_hardconfig_init` and
from `hc_wlan_data_bin_read` alike. -/
def wlanUnpack (tagId : Nat) : List Handed × Bool :=
  let p := hcPayload part .wlanData
  hcWlanDataUnpack lzo part.mem part.size tagId p.ofs p.len

/-- The WLAN data: one blob, or else one for each tag of the newer scheme. -/
def wlanRanges : List Handed :=
  if (hcPayload part .wlanData).len = 0 then []
  else
    let (handed, ok) := wlanUnpack lzo part erdIdSolo
    if ok then handed else handed ++ erdIdMulti.flatMap fun tagId => (wlanUnpack lzo part tagId).1

/-- Every range the driver hands on while it publishes the tags and while they are
read; none if the segment has no magic. -/
def handed : List Handed :=
  if get32 part.mem 0 ≠ rbMagicHard then []
  else
    initRange part :: ((hcAttrs.filter (· ≠ .wlanData)).flatMap (hcAttrShow part) ++ wlanRanges lzo part)

end Driver

end Lede.RouterBoot
