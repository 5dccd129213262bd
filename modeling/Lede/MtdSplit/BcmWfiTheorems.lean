/-
Lede.MtdSplit.BcmWfiTheorems — what the parsers of a Broadcom whole flash image return and store.

A part of the flash has an image when the files are in it and a UBI is behind them (`HasImage`).
Then `parse_bcm_wfi` returns the number of partitions it stores, which lie in that part, and else it
stores none and returns an error. The parsers of two images store an array in both cases. With an
image in the active half it is as long as the number they return says; without one they return the
error, and store the two halves.
-/
import Mathlib.Tactic.Linarith
import Lede.MtdSplit.BcmWfiWalk

namespace Lede.MtdSplit

open Lede.Lib

variable (m : Machine) (mtd : MtdInfo) (flash : Flash)

/-! ## Images -/

/-- The kernel is in the blocks from `start` on, and a UBI behind it, before `stop`. -/
def HasKernel (start : Nat) (stop : Int) : Prop :=
  ∃ kernel name nsize, FileIn m mtd flash { name := KERNEL_NAME } kernel name nsize False
      (blockOffsets mtd start stop) ∧
    ∃ rootfs ∈ blockOffsets mtd (kernel + mtd.erasesize) stop, ubiAt flash rootfs = true

/-- The part has an image, with the loader before the kernel where there is one. -/
def HasImage (cferam : Option (List UInt8)) (off size : Nat) (cfePart : Bool) : Prop :=
  if cfePart then
    ∃ cfe name nsize, FileIn m mtd flash (cferamQuery cferam) cfe name nsize False
        (blockOffsets mtd off (off + size : Nat)) ∧
      HasKernel m mtd flash (cfe + mtd.erasesize) (off + size : Nat)
  else HasKernel m mtd flash off (off + size : Nat)

/-- The boot flag of an image is the number in the name of its loader. -/
def ImageFlag (heap : Nat → UInt8) (image : MtdPartition) (flag : Int) : Prop :=
  let HasCferam := fun offs name nsize => FileIn m mtd flash { name := CFERAM_NAME, out := true }
    offs name nsize False (blockOffsets mtd image.offset (image.offset + image.size))
  (∃ offs name nsize, HasCferam offs name nsize ∧
      flag = cferamBootflagValue heap (some (name, nsize))) ∨
    ((∀ offs name nsize, ¬ HasCferam offs name nsize) ∧ flag = cferamBootflagValue heap none)

/-- The half with the higher flag has an image. -/
def SplitHasImage (cferam : Option (List UInt8)) (heap : Nat → UInt8) : Prop :=
  ∃ flag₁ flag₂, ImageFlag m mtd flash heap (image1 mtd) flag₁ ∧
    ImageFlag m mtd flash heap (image2 mtd) flag₂ ∧
    HasImage m mtd flash cferam (activeImage mtd flag₁ flag₂).1.offset
      (activeImage mtd flag₁ flag₂).1.size true

/-- The half whose boot flag device has the higher flag has an image. -/
def SerHasImage (cferam : Option (List UInt8)) (bf₁ bf₂ : BootflagDevice) : Prop :=
  let active := (activeImage mtd (sercommBootflagValue bf₁) (sercommBootflagValue bf₂)).1
  HasImage m mtd flash cferam active.offset active.size false

/-! ## What is promised of an array -/

def MtdPartition.IsImage (p : MtdPartition) : Prop := p.name = PART_IMAGE_1 ∨ p.name = PART_IMAGE_2

instance (p : MtdPartition) : Decidable p.IsImage := inferInstanceAs (Decidable (_ ∨ _))

/-- An array that is stored has as many entries as the parser says, all inside the device, and an
image in it is apart from the others. -/
def StoredOk (w : WfiParse) : Prop :=
  ∀ parts, w.parts = some parts →
    w.ret = parts.length ∧ (∀ p ∈ parts, p.Inside mtd) ∧
      ∀ p ∈ parts, ∀ q ∈ parts, q.IsImage → p ≠ q → p.Disjoint q

/-- What `parse_bcm_wfi` does with a part of the device. -/
structure PartSpec (off size : Nat) (has : Prop) (w : WfiParse) : Prop where
  stored : 0 < w.ret → ∃ parts, w.parts = some parts ∧ w.ret = parts.length ∧
    ∀ p ∈ parts, off ≤ p.offset ∧ p.offset + p.size ≤ off + size ∧ ¬ p.IsImage
  failed : w.ret ≤ 0 → w.parts = none
  positive : 0 < w.ret ↔ has

variable {m mtd flash}

section Offsets

variable {offs o : Nat} {last : Int}

theorem mem_blockOffsets (hE : 0 < mtd.erasesize) (h : o ∈ blockOffsets mtd offs last) :
    offs ≤ o ∧ (o : Int) < last := by
  unfold blockOffsets at h
  obtain ⟨i, hi, rfl⟩ := List.mem_map.1 h
  rw [List.mem_range, Nat.lt_div_iff_mul_lt hE] at hi
  have hi' : i * mtd.erasesize < (last - offs).toNat := by
    have hcomm : mtd.erasesize * i = i * mtd.erasesize := Nat.mul_comm _ _
    omega
  omega

theorem PartSpec.none {off size : Nat} {has : Prop} {ret : Int} (hret : ret ≤ 0) (hno : ¬ has) :
    PartSpec off size has ⟨ret, none⟩ where
  stored := by
    intro hpos
    exact absurd hpos (not_lt.2 hret)
  failed := fun _ => rfl
  positive := iff_of_false (not_lt.2 hret) hno

end Offsets

section Kernel

variable {off size : Nat} {cfe : Option Nat} {rounds start : Nat} {w : WfiParse}

theorem jffs2FindFile_ended {q : FileQuery} {stop : Int} {r : FindFile} {reads : List Access}
    (hreads : MtdReads mtd flash)
    (h : jffs2FindFile m mtd flash q rounds start (stop - start) = some (r, reads)) :
    SearchEnd m mtd flash q False (blockOffsets mtd start stop) r := by
  have hstop : (start : Int) + (stop - start) = stop := by omega
  have hend := (findFileIn_spec hreads h).ended
  rwa [hstop, Bool.false_eq_true] at hend

/-- The partitions of an image, with the loader's block in front when that is one. -/
def imageParts (off size : Nat) (cfe : Option Nat) (kernel rootfs : Nat) : List MtdPartition :=
  (cfe.map fun cfe => ⟨PART_CFERAM, cfe, kernel - cfe⟩).toList ++
    [⟨PART_FIRMWARE, kernel, (size - (kernel - off : Int)).toNat⟩,
      ⟨KERNEL_PART_NAME, kernel, rootfs - kernel⟩,
      ⟨UBI_PART_NAME, rootfs, (size - (rootfs - off : Int)).toNat⟩]

theorem imageParts_inside {kernel rootfs : Nat} (hcfe : ∀ c ∈ cfe, off ≤ c ∧ c ≤ kernel)
    (hkernel : off ≤ kernel) (hle : kernel ≤ rootfs) (hrootfs : rootfs < off + size) :
    ∀ p ∈ imageParts off size cfe kernel rootfs,
      off ≤ p.offset ∧ p.offset + p.size ≤ off + size ∧ ¬ p.IsImage := by
  intro p hp
  have hmem : (∃ c ∈ cfe, p = ⟨PART_CFERAM, c, kernel - c⟩) ∨
      p = ⟨PART_FIRMWARE, kernel, (size - (kernel - off : Int)).toNat⟩ ∨
      p = ⟨KERNEL_PART_NAME, kernel, rootfs - kernel⟩ ∨
      p = ⟨UBI_PART_NAME, rootfs, (size - (rootfs - off : Int)).toNat⟩ := by
    simpa [imageParts, eq_comm] using hp
  rcases hmem with ⟨c, hc, rfl⟩ | rfl | rfl | rfl
  · obtain ⟨h1, h2⟩ := hcfe c hc
    exact ⟨h1, by dsimp only; omega, by simp [MtdPartition.IsImage]; decide⟩
  · exact ⟨hkernel, by dsimp only; omega, by simp [MtdPartition.IsImage]; decide⟩
  · exact ⟨hkernel, by dsimp only; omega, by simp [MtdPartition.IsImage]; decide⟩
  · exact ⟨hkernel.trans hle, by dsimp only; omega, by simp [MtdPartition.IsImage]; decide⟩

/-- `ubifs_find` up to an offset. -/
theorem ubifsFind_eq (stop : Int) :
    ubifsFind mtd flash start (stop - start) =
      (blockOffsets mtd start stop).find? (ubiAt flash) := by
  have hstop : (start : Int) + (stop - start) = stop := by omega
  rw [ubifsFind, hstop]

/-- With the kernel found, there is one when there is a UBI behind it. -/
theorem hasKernel_iff {stop : Int} {kernel : Nat} {name : List UInt8} {nsize : Nat}
    (hfile : FileIn m mtd flash { name := KERNEL_NAME } kernel name nsize False
      (blockOffsets mtd start stop)) :
    HasKernel m mtd flash start stop ↔
      ∃ rootfs ∈ blockOffsets mtd (kernel + mtd.erasesize) stop, ubiAt flash rootfs = true := by
  constructor
  · rintro ⟨kernel', name', nsize', hfile', hubi⟩
    obtain ⟨rfl, -⟩ := hfile.unique hfile'
    exact hubi
  · exact fun hubi => ⟨kernel, name, nsize, hfile, hubi⟩

/-- The array that `parse_bcm_wfi` stores. -/
theorem PartSpec.image {has : Prop} {kernel rootfs : Nat} (hcfe : ∀ c ∈ cfe, off ≤ c ∧ c ≤ kernel)
    (hkernel : off ≤ kernel) (hle : kernel ≤ rootfs) (hrootfs : rootfs < off + size) (hhas : has) :
    PartSpec off size has ⟨(imageParts off size cfe kernel rootfs).length,
      some (imageParts off size cfe kernel rootfs)⟩ := by
  have hlen : (0 : Int) < (imageParts off size cfe kernel rootfs).length := by
    simp [imageParts]
    omega
  constructor
  · exact fun _ => ⟨_, rfl, rfl, imageParts_inside hcfe hkernel hle hrootfs⟩
  · exact fun hret => absurd hlen (not_lt.2 hret)
  · exact iff_of_true hlen hhas

/-- `parse_bcm_wfi` from the kernel on. -/
theorem parseKernel_spec (hE : 0 < mtd.erasesize) (hreads : MtdReads mtd flash)
    (hcfe : ∀ c ∈ cfe, off ≤ c) (h : parseKernel m mtd flash rounds off size cfe = some w) :
    PartSpec off size
      (HasKernel m mtd flash ((cfe.map (· + mtd.erasesize)).getD off) (off + size : Nat)) w := by
  unfold parseKernel at h
  dsimp only at h
  have hstart : off ≤ (cfe.map (· + mtd.erasesize)).getD off := by
    cases cfe with
    | none => exact le_rfl
    | some c => exact (hcfe c rfl).trans (Nat.le_add_right _ _)
  have hcfe' : ∀ c ∈ cfe, c ≤ (cfe.map (· + mtd.erasesize)).getD off := by
    rintro c rfl
    exact Nat.le_add_right _ _
  generalize (cfe.map (· + mtd.erasesize)).getD off = start at h hstart hcfe' ⊢
  have hrest : (size : Int) - (start - off : Int) = ((off + size : Nat) : Int) - start := by omega
  rw [hrest] at h
  cases hfind : jffs2FindFile m mtd flash { name := KERNEL_NAME } rounds start
      (((off + size : Nat) : Int) - start) with
  | none =>
    rw [hfind] at h
    cases h
  | some found =>
    obtain ⟨r, reads⟩ := found
    have hend := jffs2FindFile_ended hreads hfind
    rw [hfind] at h
    cases r with
    | failed ret =>
      obtain rfl := Option.some.inj h
      refine .none hend.1.le ?_
      rintro ⟨kernel, name, nsize, hfile, -⟩
      exact hend.2 _ _ _ hfile
    | found kernel name nsize =>
      have hfile : FileIn m mtd flash { name := KERNEL_NAME } kernel name nsize False
          (blockOffsets mtd start (off + size : Nat)) := hend
      obtain ⟨hk, hk'⟩ := mem_blockOffsets hE hfile.mem
      have hrest' : (size : Int) - ((kernel + mtd.erasesize : Nat) - off : Int) =
          ((off + size : Nat) : Int) - (kernel + mtd.erasesize : Nat) := by omega
      dsimp only at h
      rw [hrest', ubifsFind_eq] at h
      rw [hasKernel_iff hfile]
      cases hroot : (blockOffsets mtd (kernel + mtd.erasesize) (off + size : Nat)).find?
          (ubiAt flash) with
      | none =>
        rw [hroot] at h
        obtain rfl := Option.some.inj h
        refine .none (by decide) ?_
        rintro ⟨rootfs, hmem, hat⟩
        exact absurd hat (List.find?_eq_none.1 hroot rootfs hmem)
      | some rootfs =>
        rw [hroot] at h
        have hmem := List.mem_of_find?_eq_some hroot
        obtain ⟨hr, hr'⟩ := mem_blockOffsets hE hmem
        have hw : w = ⟨(imageParts off size cfe kernel rootfs).length,
            some (imageParts off size cfe kernel rootfs)⟩ := by
          cases cfe <;> exact (Option.some.inj h).symm
        rw [hw]
        exact .image (fun c hc => ⟨hcfe c hc, (hcfe' c hc).trans hk⟩) (by omega) (by omega)
          (by omega) ⟨rootfs, hmem, List.find?_some hroot⟩

/-- `parse_bcm_wfi` -/
theorem parseBcmWfi_spec {cferam : Option (List UInt8)} {cfePart : Bool}
    (hE : 0 < mtd.erasesize) (hreads : MtdReads mtd flash)
    (h : parseBcmWfi m mtd flash cferam rounds off size cfePart = some w) :
    PartSpec off size (HasImage m mtd flash cferam off size cfePart) w := by
  unfold parseBcmWfi at h
  unfold HasImage
  cases cfePart with
  | false => exact parseKernel_spec hE hreads (by simp) h
  | true =>
    simp only [if_true] at h ⊢
    have hrest : (size : Int) = ((off + size : Nat) : Int) - off := by omega
    rw [hrest] at h
    cases hfind : jffs2FindFile m mtd flash (cferamQuery cferam) rounds off
        (((off + size : Nat) : Int) - off) with
    | none =>
      rw [hfind] at h
      cases h
    | some found =>
      obtain ⟨r, reads⟩ := found
      have hend := jffs2FindFile_ended hreads hfind
      rw [hfind] at h
      cases r with
      | failed ret =>
        obtain rfl := Option.some.inj h
        refine .none hend.1.le ?_
        rintro ⟨cfe, name, nsize, hfile, -⟩
        exact hend.2 _ _ _ hfile
      | found cfe name nsize =>
        have hfile : FileIn m mtd flash (cferamQuery cferam) cfe name nsize False
            (blockOffsets mtd off (off + size : Nat)) := hend
        have hcfe : ∀ c ∈ some cfe, off ≤ c := by
          intro c hc
          obtain rfl := Option.some.inj hc
          exact (mem_blockOffsets hE hfile.mem).1
        have hspec := parseKernel_spec hE hreads hcfe h
        have hiff : (∃ cfe' name' nsize', FileIn m mtd flash (cferamQuery cferam) cfe' name' nsize'
              False (blockOffsets mtd off (off + size : Nat)) ∧
            HasKernel m mtd flash (cfe' + mtd.erasesize) (off + size : Nat)) ↔
            HasKernel m mtd flash (cfe + mtd.erasesize) (off + size : Nat) := by
          constructor
          · rintro ⟨cfe', name', nsize', hfile', hkernel⟩
            obtain ⟨rfl, -⟩ := hfile.unique hfile'
            exact hkernel
          · exact fun hkernel => ⟨cfe, name, nsize, hfile, hkernel⟩
        rwa [hiff]

end Kernel

/-! ## Two images -/

section Images

variable {active inactive : MtdPartition} {flag₁ flag₂ : Int} {w : WfiParse}

/-- One image is active and the other is not: they are apart, and both in the device. -/
structure Halves (mtd : MtdInfo) (active inactive : MtdPartition) : Prop where
  active_inside : active.Inside mtd
  inactive_inside : inactive.Inside mtd
  apart : active.Disjoint inactive
  image : inactive.IsImage

theorem image1_inside (mtd : MtdInfo) : (image1 mtd).Inside mtd := by
  simp only [MtdPartition.Inside, image1]
  omega

theorem image2_inside (mtd : MtdInfo) : (image2 mtd).Inside mtd := by
  simp only [MtdPartition.Inside, image2]
  omega

theorem activeImage_halves (mtd : MtdInfo) (flag₁ flag₂ : Int) :
    Halves mtd (activeImage mtd flag₁ flag₂).1 (activeImage mtd flag₁ flag₂).2 := by
  unfold activeImage
  split
  · exact ⟨image1_inside mtd, image2_inside mtd, .inl (by simp [image1, image2]), .inr rfl⟩
  · exact ⟨image2_inside mtd, image1_inside mtd, .inr (by simp [image1, image2]), .inl rfl⟩

/-- With an image in the active half the array is right. Without one the halves are stored under
a number that is not positive. -/
theorem storedOk_addInactive {has : Prop} (hhalves : Halves mtd active inactive)
    (h : PartSpec active.offset active.size has w) :
    StoredOk mtd (addInactive mtd inactive w) ↔ has := by
  rw [← h.positive]
  unfold addInactive
  by_cases hpos : 0 < w.ret
  · rw [if_pos hpos]
    obtain ⟨parts, hparts, hret, hinside⟩ := h.stored hpos
    refine iff_of_true ?_ hpos
    intro stored hstored
    rw [hparts] at hstored
    obtain rfl := Option.some.inj hstored
    have hactive := hhalves.active_inside
    unfold MtdPartition.Inside at hactive
    refine ⟨by simp [hret], ?_, ?_⟩
    · intro p hp
      rcases List.mem_append.1 hp with hp | hp
      · obtain ⟨-, hle, -⟩ := hinside p hp
        exact hle.trans hactive
      · rw [List.mem_singleton.1 hp]
        exact hhalves.inactive_inside
    · intro p hp q hq himage hne
      rcases List.mem_append.1 hq with hq | hq
      · exact absurd himage (hinside q hq).2.2
      · obtain rfl := List.mem_singleton.1 hq
        rcases List.mem_append.1 hp with hp | hp
        · obtain ⟨hge, hle, -⟩ := hinside p hp
          rcases hhalves.apart with hapart | hapart
          · exact .inl (hle.trans hapart)
          · exact .inr (hapart.trans hge)
        · exact absurd (List.mem_singleton.1 hp) hne
  · rw [if_neg hpos]
    refine iff_of_false (fun hok => ?_) hpos
    have hlen := (hok _ rfl).1
    simp at hlen
    omega

/-- A whole device has no image beside its partitions. -/
theorem PartSpec.storedOk {has : Prop} (h : PartSpec 0 mtd.size has w) : StoredOk mtd w := by
  intro stored hstored
  by_cases hpos : 0 < w.ret
  · obtain ⟨parts, hparts, hret, hinside⟩ := h.stored hpos
    rw [hparts] at hstored
    obtain rfl := Option.some.inj hstored
    refine ⟨hret, fun p hp => ?_, fun p hp q hq himage => absurd himage (hinside q hq).2.2⟩
    have hle := (hinside p hp).2.1
    unfold MtdPartition.Inside
    omega
  · rw [h.failed (not_lt.1 hpos)] at hstored
    cases hstored

/-- An image has one boot flag, the one of what the search for its loader finds. -/
theorem ImageFlag.unique {heap : Nat → UInt8} {image : MtdPartition}
    (h₁ : ImageFlag m mtd flash heap image flag₁) (h₂ : ImageFlag m mtd flash heap image flag₂) :
    flag₁ = flag₂ := by
  rcases h₁ with ⟨offs, name, nsize, hfile, rfl⟩ | ⟨hno, rfl⟩
  · rcases h₂ with ⟨offs', name', nsize', hfile', rfl⟩ | ⟨hno, -⟩
    · obtain ⟨-, rfl, rfl⟩ := hfile.unique hfile'
      rfl
    · exact absurd hfile (hno _ _ _)
  · rcases h₂ with ⟨offs', name', nsize', hfile', -⟩ | ⟨-, rfl⟩
    · exact absurd hfile' (hno _ _ _)
    · rfl

theorem findCferam_flag (hreads : MtdReads mtd flash) {heap : Nat → UInt8} {image : MtdPartition}
    {rounds : Nat} {file : Option (List UInt8 × Nat)}
    (h : findCferam m mtd flash rounds image = some file) :
    ImageFlag m mtd flash heap image (cferamBootflagValue heap file) := by
  unfold findCferam at h
  have hrest : (image.size : Int) = image.offset + image.size - image.offset := by omega
  rw [hrest] at h
  cases hfind : jffs2FindFile m mtd flash { name := CFERAM_NAME, out := true } rounds image.offset
      (image.offset + image.size - image.offset : Int) with
  | none =>
    rw [hfind] at h
    cases h
  | some found =>
    obtain ⟨r, reads⟩ := found
    have hend := jffs2FindFile_ended hreads hfind
    rw [hfind] at h
    cases r with
    | failed ret =>
      obtain rfl := Option.some.inj h
      exact .inr ⟨hend.2, rfl⟩
    | found offs name nsize =>
      obtain rfl := Option.some.inj h
      exact .inl ⟨offs, name, nsize, hend, rfl⟩

/-- The half that the boot flags of the images name, as the parser takes it. -/
theorem splitActive_flags (hreads : MtdReads mtd flash) {heap : Nat → UInt8} {rounds : Nat}
    (h : splitActive m mtd flash heap rounds = some (active, inactive)) :
    ∃ flag₁ flag₂, ImageFlag m mtd flash heap (image1 mtd) flag₁ ∧
      ImageFlag m mtd flash heap (image2 mtd) flag₂ ∧
      activeImage mtd flag₁ flag₂ = (active, inactive) := by
  unfold splitActive at h
  cases hcfe₁ : findCferam m mtd flash rounds (image1 mtd) with
  | none =>
    rw [hcfe₁] at h
    cases h
  | some cfe₁ =>
    cases hcfe₂ : findCferam m mtd flash rounds (image2 mtd) with
    | none =>
      rw [hcfe₁, hcfe₂] at h
      cases h
    | some cfe₂ =>
      rw [hcfe₁, hcfe₂] at h
      exact ⟨_, _, findCferam_flag hreads hcfe₁, findCferam_flag hreads hcfe₂, Option.some.inj h⟩

theorem splitHasImage_iff {cferam : Option (List UInt8)} {heap : Nat → UInt8}
    (h₁ : ImageFlag m mtd flash heap (image1 mtd) flag₁)
    (h₂ : ImageFlag m mtd flash heap (image2 mtd) flag₂)
    (hactive : activeImage mtd flag₁ flag₂ = (active, inactive)) :
    SplitHasImage m mtd flash cferam heap ↔
      HasImage m mtd flash cferam active.offset active.size true := by
  constructor
  · rintro ⟨flag₁', flag₂', h₁', h₂', himage⟩
    rwa [← h₁.unique h₁', ← h₂.unique h₂', hactive] at himage
  · intro himage
    refine ⟨flag₁, flag₂, h₁, h₂, ?_⟩
    rwa [hactive]

/-- `mtdsplit_parse_bcm_wfi_split` -/
theorem bcmWfiSplit_iff (hE : 0 < mtd.erasesize) (hreads : MtdReads mtd flash)
    {cferam : Option (List UInt8)} {heap : Nat → UInt8} {rounds : Nat}
    (h : mtdsplitParseBcmWfiSplit m mtd flash cferam heap rounds = some w) :
    StoredOk mtd w ↔ SplitHasImage m mtd flash cferam heap := by
  unfold mtdsplitParseBcmWfiSplit at h
  cases hactive : splitActive m mtd flash heap rounds with
  | none =>
    rw [hactive] at h
    cases h
  | some halves =>
    obtain ⟨active, inactive⟩ := halves
    rw [hactive] at h
    obtain ⟨parse, hparse, rfl⟩ := Option.map_eq_some_iff.1 h
    obtain ⟨flag₁, flag₂, h₁, h₂, heq⟩ := splitActive_flags hreads hactive
    have hhalves := activeImage_halves mtd flag₁ flag₂
    rw [heq] at hhalves
    rw [storedOk_addInactive hhalves (parseBcmWfi_spec hE hreads hparse),
      splitHasImage_iff h₁ h₂ heq]

/-- Where the second flag is erased the first image is the active one, as it is for equal flags. -/
theorem serActive_eq (mtd : MtdInfo) (bf₁ bf₂ : BootflagDevice) :
    (serActive mtd bf₁ bf₂).1 =
      activeImage mtd (sercommBootflagValue bf₁) (sercommBootflagValue bf₂) := by
  unfold serActive
  dsimp only
  split
  · rename_i hsame
    have hle : -ENOENT ≤ sercommBootflagValue bf₁ := by
      unfold ENOENT
      omega
    rw [activeImage, if_pos hle, activeImage, if_pos hsame.1.ge]
  · rfl

/-- `mtdsplit_parse_ser_wfi` with both devices there. -/
theorem serWfi_iff (hE : 0 < mtd.erasesize) (hreads : MtdReads mtd flash)
    {cferam : Option (List UInt8)} {bf₁ bf₂ : BootflagDevice} {rounds : Nat} {erased : Bool}
    (h : mtdsplitParseSerWfi m mtd flash cferam (some bf₁) (some bf₂) rounds = some (w, erased)) :
    StoredOk mtd w ↔ SerHasImage m mtd flash cferam bf₁ bf₂ := by
  have hactive := serActive_eq mtd bf₁ bf₂
  have hhalves := activeImage_halves mtd (sercommBootflagValue bf₁) (sercommBootflagValue bf₂)
  unfold mtdsplitParseSerWfi at h
  dsimp only at h
  unfold SerHasImage
  rw [← hactive] at hhalves ⊢
  obtain ⟨parse, hparse, heq⟩ := Option.map_eq_some_iff.1 h
  rw [← (Prod.mk.inj heq).1]
  exact storedOk_addInactive hhalves (parseBcmWfi_spec hE hreads hparse)

end Images

/-! ## The parsers -/

/-- `jffs2_find_file` ends inside its buffer exactly over blocks that fit; the parser of one image
is always right about its array, and those of two exactly when the active half has an image. -/
theorem bcmWfi_iff (hE : 0 < mtd.erasesize) (hreads : MtdReads mtd flash) :
    (∀ q offs size, (∃ rounds r reads, jffs2FindFile m mtd flash q rounds offs size =
        some (r, reads) ∧ Within mtd.erasesize reads) ↔
      SearchFits m mtd flash q False (blockOffsets mtd offs (offs + size))) ∧
    (∀ np rounds w, mtdsplitParseBcmWfi m mtd flash np rounds = some w → StoredOk mtd w) ∧
    (∀ cferam heap rounds w, mtdsplitParseBcmWfiSplit m mtd flash cferam heap rounds = some w →
      (StoredOk mtd w ↔ SplitHasImage m mtd flash cferam heap)) ∧
    ∀ cferam bf₁ bf₂ rounds w erased,
      mtdsplitParseSerWfi m mtd flash cferam (some bf₁) (some bf₂) rounds = some (w, erased) →
        (StoredOk mtd w ↔ SerHasImage m mtd flash cferam bf₁ bf₂) := by
  refine ⟨fun q offs size => jffs2FindFile_safe_iff hreads offs size, ?_,
    fun _ _ _ _ => bcmWfiSplit_iff hE hreads, fun _ _ _ _ _ _ => serWfi_iff hE hreads⟩
  intro np rounds w h
  cases np with
  | none =>
    obtain rfl := Option.some.inj h
    intro parts hparts
    cases hparts
  | some np => exact (parseBcmWfi_spec hE hreads h).storedOk

/-! ## Two devices -/

/-- A directory entry, with the checksum that goes with it. -/
def direntBytes (totlen : UInt8) (crc name : List UInt8) : List UInt8 :=
  [0x85, 0x19, 0x01, 0xe0, totlen, 0, 0, 0, 0, 0, 0, 0, 1, 0, 0, 0, 1, 0, 0, 0, 2, 0, 0, 0,
    0, 0, 0, 0, UInt8.ofNat name.length, 8, 0, 0] ++ crc ++ [0, 0, 0, 0] ++ name

/-- A block with the mark of OpenWrt and a file. -/
def fileBlock (name : List UInt8) : List UInt8 :=
  direntBytes 49 [0xac, 0x52, 0x14, 0xf4] OPENWRT_NAME ++ [0xff, 0xff, 0xff] ++
    direntBytes 50 [0x65, 0xfa, 0x7f, 0xe4] name

/-- Eight blocks, an image in the first half and nothing in the second. -/
def wfiMtd : MtdInfo := ⟨1024, 128, by decide, by decide⟩

def wfiFlash : Flash := deviceOf wfiMtd fun a =>
  if a < 128 then (fileBlock (ascii "cferam.000")).getD a 0xff
  else if a < 256 then (fileBlock KERNEL_NAME).getD (a - 128) 0xff
  else ([0x55, 0x42, 0x49, 0x23] : List UInt8).getD (a - 256) 0xff

/-- Two images of which nothing has been written. -/
def erasedFlash : Flash := deviceOf wfiMtd fun _ => 0xff

/-- A block whose entry says that it is zero bytes long. -/
def emptyNodeFlash : Flash := deviceOf wfiMtd fun a =>
  (direntBytes 0 [0x2e, 0xf5, 0xf5, 0x1d] (ascii "a")).getD a 0xff

def wfiParts : List MtdPartition :=
  [⟨"cferam", 0, 128⟩, ⟨"firmware", 128, 384⟩, ⟨"kernel", 128, 128⟩, ⟨"ubi", 256, 256⟩,
    ⟨"img2", 512, 512⟩]

/-- What the parsers do on the first two, and a walk of the third that never leaves its first
node. -/
theorem wfi_runs :
    mtdsplitParseBcmWfiSplit pc wfiMtd wfiFlash none (fun _ => 0) 40 = some ⟨5, some wfiParts⟩ ∧
    mtdsplitParseBcmWfiSplit pc wfiMtd erasedFlash none (fun _ => 0) 1 =
      some ⟨-ENOENT, some [image1 wfiMtd, image2 wfiMtd]⟩ ∧
    (Orbit.walkAt (nextNode pc wfiMtd { name := KERNEL_NAME } (emptyNodeFlash 0 128).buf)
      0 33).isSome := by
  decide +kernel

/-- The image that is there, and what the parser makes of it. -/
theorem wfiFlash_stored :
    StoredOk wfiMtd ⟨5, some wfiParts⟩ ∧ SplitHasImage pc wfiMtd wfiFlash none fun _ => 0 := by
  have hiff := (bcmWfi_iff (by decide) (deviceOf_reads _ _)).2.2.1 none (fun _ => 0) 40 _ wfi_runs.1
  have hok : StoredOk wfiMtd ⟨5, some wfiParts⟩ := by
    intro parts hparts
    obtain rfl := Option.some.inj hparts
    exact ⟨rfl, by decide, by decide⟩
  exact ⟨hok, hiff.1 hok⟩

/-- On an erased flash two partitions are stored and an error is returned; and a node of no length
is walked for ever. -/
theorem erasedFlash_stored :
    (∃ w, mtdsplitParseBcmWfiSplit pc wfiMtd erasedFlash none (fun _ => 0) 1 = some w ∧
      ¬ StoredOk wfiMtd w) ∧
    ¬ ∃ rounds r reads, jffs2FindFile pc wfiMtd emptyNodeFlash { name := KERNEL_NAME } rounds 0
      1024 = some (r, reads) ∧ Within wfiMtd.erasesize reads := by
  obtain ⟨-, hsplit, hwalk⟩ := wfi_runs
  constructor
  · refine ⟨_, hsplit, fun hok => ?_⟩
    exact absurd (hok _ rfl).1 (by decide)
  · have hreads : MtdReads wfiMtd emptyNodeFlash := deviceOf_reads _ _
    rw [jffs2FindFile_safe_iff hreads]
    intro hfits
    have hblock : readBlock pc wfiMtd emptyNodeFlash 0 = .block (emptyNodeFlash 0 128).buf := rfl
    have hend := ((searchFits_block hblock).1 hfits).1.1
    rw [show (wfiMtd.erasesize + 3) / 4 + 1 = 33 from rfl] at hend
    rw [hend] at hwalk
    cases hwalk

end Lede.MtdSplit
