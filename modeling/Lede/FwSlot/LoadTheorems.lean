/-
Lede.FwSlot.LoadTheorems — which bytes of a package file `package_load` reads.

`Package.loadUse` lists the ranges of the loaded file that `package_load` reads, up
to the check it ends with. They lie in the file exactly if the header does and, for a
file that gets that far, the U-Boot does (`within_loadUse_iff`). Neither is checked: the
end of the header is computed modulo 2^32, and the length of the body is not compared
with the size of the U-Boot.
-/
import Lede.FwSlot.Flash
import Lede.Lib.Access

namespace Lede.FwSlot

open Lede.Lib

namespace Package

variable (p : Package)

/-- `n` bytes of the version header, from byte `o` on. -/
def hdrUse (o n : Nat) : Access := ⟨p.hdrOfs + o, n⟩

/-- The three ranges with a CRC of their own. -/
def crcUse : List Access :=
  let koff := get32 p.hdr hKernelFileofs
  let ksz := get32 p.hdr hKernelSize
  let foff := get32 p.hdr hFsFileofs
  let fsz := get32 p.hdr hFsSize
  if p.size < koff + ksz ∨ p.size < foff + fsz then []
  else
    ⟨p.bodyOfs, ubootSize⟩ :: p.hdrUse hUbootCrc 4 ::
      if crc32 p.body 0 ubootSize ≠ get32 p.hdr hUbootCrc then []
      else
        ⟨koff, ksz⟩ :: p.hdrUse hKernelCrc 4 ::
          if crc32 p.data koff ksz ≠ get32 p.hdr hKernelCrc then []
          else [⟨foff, fsz⟩, p.hdrUse hFsCrc 4]

/-- The fields of a header with a CRC that matches. -/
def fieldUse : List Access :=
  p.hdrUse 0 hCrc2 :: p.hdrUse hCrc2 4 ::
    if crc32 p.hdr 0 hCrc2 ≠ get32 p.hdr hCrc2 then []
    else
      p.hdrUse hProduct product.length ::
        if !memEq p.hdr hProduct product then []
        else
          p.hdrUse hFwSize 4 ::
            if get32 p.hdr hFwSize ≠ p.bodyLen then []
            else
              p.hdrUse hKernelFileofs 4 :: p.hdrUse hKernelSize 4 :: p.hdrUse hFsFileofs 4 ::
                p.hdrUse hFsSize 4 :: p.crcUse

/-- `package_load`: the ranges of the file that are read. -/
def loadUse : List Access :=
  if p.size < 0x14 + verHdrSize then []
  else
    ⟨0, outerMagic.length⟩ ::
      if !memEq p.data 0 outerMagic then []
      else
        ⟨0x10, 4⟩ ::
          if p.size < p.bodyOfs then []
          else
            p.hdrUse hInnerMagic innerMagic.length ::
              if !memEq p.hdr hInnerMagic innerMagic then []
              else
                p.hdrUse 0 hCrc :: p.hdrUse hCrc 4 ::
                  if crc32 p.hdr 0 hCrc ≠ get32 p.hdr hCrc then [] else p.fieldUse

/-- The file is large enough, begins as a package does, and is not taken to be truncated. -/
structure Begins : Prop where
  size : 0x14 + verHdrSize ≤ p.size
  magic : memEq p.data 0 outerMagic = true
  bodyOfs : p.bodyOfs ≤ p.size

/-- The header has its magic, and a first CRC that matches. -/
structure HeaderOk : Prop where
  magic : memEq p.hdr hInnerMagic innerMagic = true
  crc : crc32 p.hdr 0 hCrc = get32 p.hdr hCrc

/-- The rest of the header, up to the regions of kernel and root filesystem, passes. -/
structure FieldsOk : Prop where
  crc2 : crc32 p.hdr 0 hCrc2 = get32 p.hdr hCrc2
  product : memEq p.hdr hProduct product = true
  fwSize : get32 p.hdr hFwSize = p.bodyLen
  kernel : get32 p.hdr hKernelFileofs + get32 p.hdr hKernelSize ≤ p.size
  fs : get32 p.hdr hFsFileofs + get32 p.hdr hFsSize ≤ p.size

/-- The header ends in the file as far as it is read, and a U-Boot is in the file if its CRC is
looked at. -/
def LoadFits : Prop :=
  p.Begins → p.hdrOfs + (hInnerMagic + innerMagic.length) ≤ p.size ∧
    (p.HeaderOk → p.hdrOfs + verHdrSize ≤ p.size ∧
      (p.FieldsOk → p.bodyOfs + ubootSize ≤ p.size))

end Package

variable {p : Package}

/-- A field of a header that ends in the file. -/
theorem hdrUse_le {o n : Nat} (hhdr : p.hdrOfs + verHdrSize ≤ p.size) (h : o + n ≤ verHdrSize) :
    (p.hdrUse o n).off + (p.hdrUse o n).len ≤ p.size := by
  simp only [Package.hdrUse]
  omega

theorem within_crcUse (hhdr : p.hdrOfs + verHdrSize ≤ p.size)
    (hkernel : get32 p.hdr hKernelFileofs + get32 p.hdr hKernelSize ≤ p.size)
    (hfs : get32 p.hdr hFsFileofs + get32 p.hdr hFsSize ≤ p.size) :
    Within p.size p.crcUse ↔ p.bodyOfs + ubootSize ≤ p.size := by
  have huboot := hdrUse_le (o := hUbootCrc) (n := 4) hhdr (by decide)
  have hk := hdrUse_le (o := hKernelCrc) (n := 4) hhdr (by decide)
  have hf := hdrUse_le (o := hFsCrc) (n := 4) hhdr (by decide)
  unfold Package.crcUse
  dsimp only
  rw [if_neg (by omega), within_cons, within_cons]
  refine ⟨And.left, fun hbody => ⟨hbody, huboot, ?_⟩⟩
  split
  · exact within_nil
  · simp only [within_cons]
    refine ⟨hkernel, hk, ?_⟩
    split
    · exact within_nil
    · simp [hfs, hf]

/-- Behind the first CRC, everything read is in the file if the header is, and a U-Boot whose CRC is
looked at. -/
theorem within_fieldUse : Within p.size p.fieldUse ↔
    p.hdrOfs + verHdrSize ≤ p.size ∧ (p.FieldsOk → p.bodyOfs + ubootSize ≤ p.size) := by
  unfold Package.fieldUse
  rw [within_cons, within_cons]
  -- the second CRC is the last field of the header
  have hend : (p.hdrUse hCrc2 4).off + (p.hdrUse hCrc2 4).len = p.hdrOfs + verHdrSize := by
    simp only [Package.hdrUse, hCrc2, verHdrSize]
  by_cases hhdr : p.hdrOfs + verHdrSize ≤ p.size
  · rw [hend, and_iff_right hhdr, and_iff_right (hdrUse_le hhdr (by decide)), and_iff_right hhdr]
    split
    · next hne => exact ⟨fun _ hok => absurd hok.crc2 hne, fun _ => within_nil⟩
    · next hcrc2 =>
      rw [within_cons, and_iff_right (hdrUse_le hhdr (by decide))]
      split
      · next hne =>
        refine ⟨fun _ hok => ?_, fun _ => within_nil⟩
        rw [hok.product] at hne
        exact absurd hne (by decide)
      · next hproduct =>
        rw [within_cons, and_iff_right (hdrUse_le hhdr (by decide))]
        split
        · next hne => exact ⟨fun _ hok => absurd hok.fwSize hne, fun _ => within_nil⟩
        · next hsize =>
          simp only [within_cons]
          rw [and_iff_right (hdrUse_le hhdr (by decide)), and_iff_right (hdrUse_le hhdr (by decide)),
            and_iff_right (hdrUse_le hhdr (by decide)), and_iff_right (hdrUse_le hhdr (by decide))]
          by_cases hregions : get32 p.hdr hKernelFileofs + get32 p.hdr hKernelSize ≤ p.size ∧
              get32 p.hdr hFsFileofs + get32 p.hdr hFsSize ≤ p.size
          · rw [within_crcUse hhdr hregions.1 hregions.2, forall_prop_of_true]
            exact ⟨not_not.mp hcrc2, by simpa using hproduct, not_not.mp hsize, hregions.1, hregions.2⟩
          · have hout : p.crcUse = [] := by
              unfold Package.crcUse
              exact if_pos (by omega)
            rw [hout]
            exact ⟨fun _ hok => absurd ⟨hok.kernel, hok.fs⟩ hregions, fun _ => within_nil⟩
  · rw [hend]
    exact ⟨fun h => absurd h.2.1 hhdr, fun h => absurd h.1 hhdr⟩

/-- For every file and all values of its fields: `package_load` reads inside the file exactly if
the file fits. -/
theorem within_loadUse_iff (p : Package) : Within p.size p.loadUse ↔ p.LoadFits := by
  unfold Package.loadUse Package.LoadFits
  by_cases hsize : p.size < 0x14 + verHdrSize
  · rw [if_pos hsize]
    exact ⟨fun _ hb => absurd hb.size (by omega), fun _ => within_nil⟩
  · have hstart : 0x10 + 4 ≤ p.size := by omega
    rw [if_neg hsize, within_cons, and_iff_right (by simp [Package.outerMagic]; omega)]
    split
    · next hne =>
      refine ⟨fun _ hb => ?_, fun _ => within_nil⟩
      rw [hb.magic] at hne
      exact absurd hne (by decide)
    · next hmagic =>
      rw [within_cons, and_iff_right hstart]
      split
      · next htrunc => exact ⟨fun _ hb => absurd hb.bodyOfs (by omega), fun _ => within_nil⟩
      · next hbody =>
        have hbegins : p.Begins := ⟨by omega, by simpa using hmagic, by omega⟩
        have hend : (p.hdrUse hInnerMagic innerMagic.length).off +
            (p.hdrUse hInnerMagic innerMagic.length).len
              = p.hdrOfs + (hInnerMagic + innerMagic.length) := by
          simp only [Package.hdrUse, Nat.add_assoc]
        rw [forall_prop_of_true hbegins, within_cons, hend]
        refine and_congr_right fun hfit => ?_
        split
        · next hne =>
          refine ⟨fun _ hok => ?_, fun _ => within_nil⟩
          rw [hok.magic] at hne
          exact absurd hne (by decide)
        · next hinner =>
          -- what the first CRC needs lies in front of the magic
          have hfirst : (p.hdrUse 0 hCrc).off + (p.hdrUse 0 hCrc).len ≤ p.size ∧
              (p.hdrUse hCrc 4).off + (p.hdrUse hCrc 4).len ≤ p.size := by
            simp only [Package.hdrUse, hCrc, hInnerMagic] at hfit ⊢
            omega
          rw [within_cons, within_cons, and_iff_right hfirst.1, and_iff_right hfirst.2]
          split
          · next hne => exact ⟨fun _ hok => absurd hok.crc hne, fun _ => within_nil⟩
          · next hcrc =>
            have hok : p.HeaderOk := ⟨by simpa using hinner, not_not.mp hcrc⟩
            rw [within_fieldUse, forall_prop_of_true hok]

/-- A file of the smallest size that is looked at. Its header would lie at 0xfffffe00, and the end of
that header is at 0. -/
def wrappedPackage : Package where
  data := fun i =>
    if i < 16 then Package.outerMagic.getD i 0 else [0xec, 0xfd, 0xff, 0xff].getD (i - 16) 0
  size := 0x14 + verHdrSize

/-- The header of that file is read four gigabytes behind its end. -/
theorem wrappedPackage_loadUse : ¬ Within wrappedPackage.size wrappedPackage.loadUse := by
  decide +kernel

end Lede.FwSlot
