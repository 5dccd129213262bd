/-
Lede.RouterBoot.HardConfigTheorems — when the ranges of the hard_config driver lie in
their buffers.

The offset of a tag is always inside: `routerboot_tag_find` stops at the end of its
buffer. What may reach outside is the length of a tag, which three callers use
unchecked or compare with the wrong thing, and the magic that is skipped in front of a
payload too short to hold one. Everything else the driver hands on (the lists it
searches, the raw RLE data, the copy it decompresses) is inside whatever the segment
holds.
-/
import Lede.RouterBoot.HardConfig

namespace Lede.RouterBoot

open Lede.Lib

/-! ## Nested tags -/

/-- The tag in the `len` bytes at `m`, unless it is longer than all of them, ends inside. -/
def TagFits (m : Nat → UInt8) (len tagId : Nat) : Prop :=
  ∀ p, routerbootTagFind m len tagId = some p → p.len ≤ len → p.ofs + p.len ≤ len

/-- The data of an LZOR container: the magic is found in the unpacked data, not behind
them, and the tag behind it ends inside. -/
def LzorFits (lzo : Lzo) (inbuf : Nat → UInt8) (inlen tagId : Nat) : Prop :=
  ∀ needle, inlen + lzorTextSize ≤ rbArtSize → (lzorUnpacked lzo inbuf inlen).1 ≠ .error →
    needleLoop (lzorUnpacked lzo inbuf inlen).2.2 (lzorUnpacked lzo inbuf inlen).2.1
      ((lzorUnpacked lzo inbuf inlen).2.1 + 1) 0 = some needle →
    needle ≤ (lzorUnpacked lzo inbuf inlen).2.1 ∧
      TagFits (behind (lzorUnpacked lzo inbuf inlen).2.2 needle)
        ((lzorUnpacked lzo inbuf inlen).2.1 - needle) tagId

/-- The WLAN payload: a container holds its magic, and fits. -/
structure ContainerFits (lzo : Lzo) (m : Nat → UInt8) (tofs tlen tagId : Nat) : Prop where
  erd : get32 m tofs = rbMagicErd → 4 ≤ tlen ∧ TagFits (behind m (tofs + 4)) (tlen - 4) tagId
  lzor : get32 m tofs = rbMagicLzor → 4 ≤ tlen ∧ LzorFits lzo (behind m (tofs + 4)) (tlen - 4) tagId

section Nested

variable {lzo : Lzo} {m inbuf needle : Nat → UInt8} {tagId inlen len : Nat}

theorem inside_nat {c : Consumer} {size ofs len : Nat} :
    Handed.Inside ⟨c, size, ofs, (len : Int)⟩ ↔ ofs + len ≤ size := by
  unfold Handed.Inside
  dsimp only
  omega

/-- A length that was computed by a subtraction. -/
theorem inside_sub {c : Consumer} {size ofs a b : Nat} (h : ofs + a ≤ size + b) :
    Handed.Inside ⟨c, size, ofs, (a : Int) - b⟩ ↔ b ≤ a := by
  unfold Handed.Inside
  dsimp only
  omega

theorem sizeT_of_lt {n : Nat} (h : n < 2 ^ 32) : sizeT n = n := by
  unfold sizeT
  omega

theorem sizeT_sub {a b : Nat} (h : b ≤ a) (ha : a < 2 ^ 32) : sizeT ((a : Int) - b) = a - b := by
  unfold sizeT
  omega

theorem hcWlanDataUnpackErd_inside :
    (∀ h ∈ (hcWlanDataUnpackErd lzo tagId inbuf inlen).1, h.Inside) ↔ TagFits inbuf inlen tagId := by
  unfold hcWlanDataUnpackErd TagFits
  cases hfind : routerbootTagFind inbuf inlen tagId with
  | none => simp
  | some p =>
    dsimp only
    split
    · next hlt =>
      simp only [Option.some.injEq, forall_eq', List.not_mem_nil, false_implies, implies_true, true_iff]
      omega
    · next hle =>
      simp only [Option.some.injEq, forall_eq', List.mem_singleton, forall_eq, inside_nat]
      omega

theorem lzorTag_inside :
    (∀ h ∈ (lzorTag tagId needle len).1, h.Inside) ↔ TagFits needle len tagId := by
  unfold lzorTag TagFits
  cases hfind : routerbootTagFind needle len tagId with
  | none => simp
  | some p =>
    dsimp only
    split
    · next hlt =>
      simp only [Option.some.injEq, forall_eq', List.not_mem_nil, false_implies, implies_true, true_iff]
      omega
    · next hle =>
      simp only [Option.some.injEq, forall_eq', List.mem_singleton, forall_eq, inside_nat]
      omega

theorem hcWlanDataUnpackLzor_inside (hlen : inlen < 65536) :
    (∀ h ∈ (hcWlanDataUnpackLzor lzo tagId inbuf inlen).1, h.Inside) ↔
      LzorFits lzo inbuf inlen tagId := by
  have hsize : sizeT ((inlen : Int) + lzorTextSize) = inlen + lzorTextSize := by
    have := @sizeT_of_lt (inlen + lzorTextSize) (by unfold lzorTextSize; omega)
    exact_mod_cast this
  have hout : (lzorUnpacked lzo inbuf inlen).2.1 ≤ rbArtSize := lzo.outlen_le _ _ _
  have hart : rbArtSize < 2 ^ 32 := by decide
  unfold hcWlanDataUnpackLzor LzorFits
  rw [hsize]
  dsimp only
  split
  · next hlt =>
    refine ⟨fun _ needle hle => absurd hle (by omega), fun _ h hh => absurd hh (by simp)⟩
  · next hle =>
    -- the copy that is decompressed fits its buffer
    have hcopy : Handed.Inside ⟨.lzo, rbArtSize, 0, ((inlen + lzorTextSize : Nat) : Int)⟩ := by
      rw [inside_nat]
      omega
    generalize lzorUnpacked lzo inbuf inlen = r at hout ⊢
    obtain ⟨ret, templen, tempbuf⟩ := r
    dsimp only at hout ⊢
    by_cases hret : ret = .error
    · rw [if_pos hret]
      simp only [List.mem_singleton, forall_eq]
      exact ⟨fun _ _ _ hne => absurd hret hne, fun _ => hcopy⟩
    · rw [if_neg hret]
      cases hneedle : needleLoop tempbuf templen (templen + 1) 0 with
      | none =>
        simp only [List.mem_singleton, forall_eq]
        exact ⟨fun _ _ _ _ hn => absurd hn (by simp), fun _ => hcopy⟩
      | some k =>
        dsimp only
        have hlist : ∀ (x : Handed) (xs : List Handed),
            (∀ h ∈ [⟨.lzo, rbArtSize, 0, ((inlen + lzorTextSize : Nat) : Int)⟩] ++ x :: xs, h.Inside) ↔
              x.Inside ∧ ∀ h ∈ xs, h.Inside := by
          intro x xs
          simp only [List.singleton_append, List.forall_mem_cons]
          exact and_iff_right hcopy
        rw [hlist, inside_sub (by omega)]
        constructor
        · rintro ⟨hk, hmore⟩ needle _ _ he
          obtain rfl := Option.some.inj he
          rw [sizeT_sub hk (by omega), lzorTag_inside] at hmore
          exact ⟨hk, hmore⟩
        · intro hfits
          obtain ⟨hk, htag⟩ := hfits k (by omega) hret rfl
          rw [sizeT_sub hk (by omega), lzorTag_inside]
          exact ⟨hk, htag⟩

/-- `hc_wlan_data_unpack`, on a payload it does not refuse. -/
theorem hcWlanDataUnpack_inside {hcBuflen tofs tlen : Nat} (hlen : tlen < 65536) :
    (∀ h ∈ (hcWlanDataUnpack lzo m hcBuflen tagId tofs tlen).1, h.Inside) ↔
      (tofs + tlen ≤ hcBuflen → ContainerFits lzo m tofs tlen tagId) := by
  unfold hcWlanDataUnpack
  split
  · next hlt =>
    refine ⟨fun _ hle => absurd hle (by omega), fun _ h hh => absurd hh (by simp)⟩
  · next hle =>
    have hin : tofs + tlen ≤ hcBuflen := by omega
    have hbound : tofs + 4 + tlen ≤ hcBuflen + 4 := by omega
    have hfour : (4 : Int) = ((4 : Nat) : Int) := rfl
    dsimp only
    split
    · next hmagic =>
      have hne : get32 m tofs ≠ rbMagicErd := by
        rw [hmagic]
        decide
      rw [List.forall_mem_cons, hfour, inside_sub hbound]
      constructor
      · rintro ⟨h4, hmore⟩ _
        rw [sizeT_sub h4 (by omega), hcWlanDataUnpackLzor_inside (by omega)] at hmore
        exact ⟨fun he => absurd he hne, fun _ => ⟨h4, hmore⟩⟩
      · intro hfits
        obtain ⟨h4, hlzor⟩ := (hfits hin).lzor hmagic
        rw [sizeT_sub h4 (by omega), hcWlanDataUnpackLzor_inside (by omega)]
        exact ⟨h4, hlzor⟩
    · next hlzor =>
      split
      · next hmagic =>
        rw [List.forall_mem_cons, hfour, inside_sub hbound]
        constructor
        · rintro ⟨h4, hmore⟩ _
          rw [sizeT_sub h4 (by omega), hcWlanDataUnpackErd_inside] at hmore
          exact ⟨fun _ => ⟨h4, hmore⟩, fun he => absurd he hlzor⟩
        · intro hfits
          obtain ⟨h4, herd⟩ := (hfits hin).erd hmagic
          rw [sizeT_sub h4 (by omega), hcWlanDataUnpackErd_inside]
          exact ⟨h4, herd⟩
      · next herd =>
        have hfits : ContainerFits lzo m tofs tlen tagId :=
          ⟨fun he => absurd he herd, fun he => absurd he hlzor⟩
        refine ⟨fun _ _ => hfits, fun _ h hh => ?_⟩
        split at hh
        · obtain rfl := List.mem_singleton.mp hh
          exact inside_nat.mpr hin
        · exact absurd hh (by simp)

end Nested

/-! ## The segment -/

/-- The tags of the WLAN data that are looked up. -/
def wlanTags (lzo : Lzo) (part : HardPart) : List Nat :=
  if (wlanUnpack lzo part erdIdSolo).2 then [erdIdSolo] else erdIdSolo :: erdIdMulti

/-- Every known tag ends inside the segment, and so do the tags inside the WLAN data. -/
structure SegmentFits (lzo : Lzo) (part : HardPart) : Prop where
  tags : ∀ tag, tag ≠ .wlanData → (hcPayload part tag).ofs + (hcPayload part tag).len ≤ part.size
  wlan : (hcPayload part .wlanData).len ≠ 0 →
    (hcPayload part .wlanData).ofs + (hcPayload part .wlanData).len ≤ part.size →
    ∀ tagId ∈ wlanTags lzo part,
      ContainerFits lzo part.mem (hcPayload part .wlanData).ofs (hcPayload part .wlanData).len tagId

section Segment

variable (lzo : Lzo) (part : HardPart)

theorem hcPayload_len_lt (tag : HcTag) : (hcPayload part tag).len < 65536 := by
  unfold hcPayload
  split
  · decide
  · next p hp =>
    obtain ⟨o, -, -, -, hlen, -⟩ := routerbootTagFind_node hp
    have hlt := get32_lt (behind part.mem 4) o
    show p.len < 65536
    omega

/-- The offset of a tag lies in the segment. -/
theorem hcPayload_ofs_le (tag : HcTag) (h0 : (hcPayload part tag).len = 0) :
    (hcPayload part tag).ofs + (hcPayload part tag).len ≤ part.size := by
  rw [h0]
  unfold hcPayload
  split
  · exact Nat.zero_le _
  · next p hp =>
    obtain ⟨o, -, hlt, hofs, -, -⟩ := routerbootTagFind_node hp
    show (p.ofs + 4) % 65536 + 0 ≤ part.size
    omega

theorem mem_hcAttrs (tag : HcTag) : tag ∈ hcAttrs := by
  cases tag <;> decide

theorem hcAttrShow_inside (tag : HcTag) :
    (∀ h ∈ hcAttrShow part tag, h.Inside) ↔
      ((hcPayload part tag).len ≠ 0 → (hcPayload part tag).ofs + (hcPayload part tag).len ≤ part.size) := by
  unfold hcAttrShow
  dsimp only
  split
  · next h0 => simp [h0]
  · next h0 => simp [h0, inside_nat]

theorem initRange_inside : (initRange part).Inside := by
  have hge := part.size_ge
  unfold Handed.Inside initRange
  dsimp only
  omega

theorem wlanRanges_inside :
    (∀ h ∈ wlanRanges lzo part, h.Inside) ↔
      ((hcPayload part .wlanData).len ≠ 0 →
        (hcPayload part .wlanData).ofs + (hcPayload part .wlanData).len ≤ part.size →
        ∀ tagId ∈ wlanTags lzo part, ContainerFits lzo part.mem (hcPayload part .wlanData).ofs
          (hcPayload part .wlanData).len tagId) := by
  have hunpack : ∀ tagId, (∀ h ∈ (wlanUnpack lzo part tagId).1, h.Inside) ↔
      ((hcPayload part .wlanData).ofs + (hcPayload part .wlanData).len ≤ part.size →
        ContainerFits lzo part.mem (hcPayload part .wlanData).ofs (hcPayload part .wlanData).len tagId) := by
    intro tagId
    have hdef : wlanUnpack lzo part tagId = hcWlanDataUnpack lzo part.mem part.size tagId
        (hcPayload part .wlanData).ofs (hcPayload part .wlanData).len := rfl
    rw [hdef]
    exact hcWlanDataUnpack_inside (hcPayload_len_lt part .wlanData)
  -- the ranges are those of the tags that are looked up
  have hranges : (hcPayload part .wlanData).len ≠ 0 →
      wlanRanges lzo part = (wlanTags lzo part).flatMap fun tagId => (wlanUnpack lzo part tagId).1 := by
    intro h0
    unfold wlanRanges wlanTags
    rw [if_neg h0]
    dsimp only
    split
    · simp
    · simp
  by_cases h0 : (hcPayload part .wlanData).len = 0
  · unfold wlanRanges
    rw [if_pos h0]
    simp [h0]
  · rw [hranges h0]
    simp only [List.mem_flatMap, forall_exists_index, and_imp]
    constructor
    · intro hall _ hle tagId hmem
      exact (hunpack tagId).mp (fun h hh => hall h tagId hmem hh) hle
    · intro hfits h tagId hmem hh
      exact (hunpack tagId).mpr (fun hle => hfits h0 hle tagId hmem) h hh

/-- Every range the driver hands on lies in its buffer exactly when the lengths of the
tags fit. -/
theorem handed_inside_iff (hmagic : get32 part.mem 0 = rbMagicHard) :
    (∀ h ∈ handed lzo part, h.Inside) ↔ SegmentFits lzo part := by
  unfold handed
  rw [if_neg (not_not_intro hmagic), List.forall_mem_cons, List.forall_mem_append,
    wlanRanges_inside]
  have htags : (∀ h ∈ (hcAttrs.filter (· ≠ .wlanData)).flatMap (hcAttrShow part), h.Inside) ↔
      ∀ tag, tag ≠ .wlanData →
        (hcPayload part tag).ofs + (hcPayload part tag).len ≤ part.size := by
    simp only [List.mem_flatMap, List.mem_filter, mem_hcAttrs, true_and, forall_exists_index, and_imp]
    constructor
    · intro hall tag hne
      by_cases h0 : (hcPayload part tag).len = 0
      · exact hcPayload_ofs_le part tag h0
      · exact (hcAttrShow_inside part tag).mp (fun h hh => hall h tag (by simpa using hne) hh) h0
    · intro hfits h tag hne hh
      exact (hcAttrShow_inside part tag).mpr (fun _ => hfits tag (by simpa using hne)) h hh
  rw [htags]
  exact ⟨fun h => ⟨h.2.1, h.2.2⟩, fun h => ⟨initRange_inside part, h.tags, h.wlan⟩⟩

/-- A segment with one tag, `flash_info`, whose node declares `len` bytes. -/
def flashInfoPart (len : UInt8) : HardPart where
  size := 16
  size_ge := by decide
  dvd_size := by decide
  mem := fun a => [0x48, 0x61, 0x72, 0x64, 3, 0, len, 0, 1, 2, 3, 4, 0, 0, 0, 0].getD a 0xff

/-- A decompressor that refuses everything. The segments above hold nothing for it. -/
def refusingLzo : Lzo where
  decompress := fun _ _ _ => (.error, 0, fun _ => 0)
  outlen_le := fun _ _ _ => Nat.zero_le _
  lzorText := fun _ => 0

/-- Four bytes, as there are. -/
theorem handed_inside_iff_four : get32 (flashInfoPart 4).mem 0 = rbMagicHard ∧
    ∀ h ∈ handed refusingLzo (flashInfoPart 4), h.Inside := by
  have hmagic : get32 (flashInfoPart 4).mem 0 = rbMagicHard := by decide
  have hfits : SegmentFits refusingLzo (flashInfoPart 4) := by
    refine ⟨fun tag _ => ?_, fun hlen => absurd hlen (by decide)⟩
    cases tag <;> decide
  exact ⟨hmagic, (handed_inside_iff refusingLzo (flashInfoPart 4) hmagic).mpr hfits⟩

/-- A length of 100 goes to the show routine as it is. -/
theorem handed_outside : ¬ ∀ (lzo : Lzo) (part : HardPart), ∀ h ∈ handed lzo part, h.Inside := by
  intro hall
  have hmem : (⟨.show, 16, 8, 100⟩ : Handed) ∈ handed refusingLzo (flashInfoPart 100) := by decide
  exact absurd (hall refusingLzo (flashInfoPart 100) _ hmem) (by decide)

end Segment

end Lede.RouterBoot
