/-
Lede.FwSlot.MtdVerify — `slot_verify` on an MTD partition whose reads may fail.

`Lede.FwSlot.Slot` has a slot as a run of whole blocks that can all be read. Here the
partition is what the ioctls and `pread` show: an erase size, a size that need not be a
multiple of it, the bad block table, and whether a read delivers. A slot is such a
partition (`Slot.mtd`), and there the two models of `slot_verify` agree
(`verify_slotMtd`). The buffer can be allocated.

The loop feeds the good blocks to three regions at once. Whatever the chunks, a region
ends up with the checksum over its own bytes (`feedChunks_crc`), so that an accepted
slot is one whose payload has the checksums of the header (`verify_eq_none_iff_sound`).
-/
import Lede.FwSlot.FlashTheorems

namespace Lede.FwSlot

open Lede.Lib

/-- An open MTD partition. -/
structure Mtd where
  erasesize : Nat
  size : Nat
  erasesize_pos : 0 < erasesize
  /-- `MEMGETBADBLOCK` at an offset. -/
  bad : Nat → Bool
  /-- Whether `pread` delivers that many bytes at an offset. -/
  readOk : Nat → Nat → Bool
  data : Nat → UInt8

namespace Mtd

variable (m : Mtd)

/-- The loop of `slot_verify`. -/
def verifyLoop (bodyLen ofs pos : Nat) (rs : List Region) : Except String (List Region) :=
  if pos < bodyLen then
    let n := if bodyLen - pos < m.erasesize then bodyLen - pos else m.erasesize
    if m.size < ofs + m.erasesize then .error "payload runs past the end of the slot"
    else if m.bad ofs then verifyLoop bodyLen (ofs + m.erasesize) pos rs
    else if !m.readOk ofs n then .error "read error"
    else
      verifyLoop bodyLen (ofs + m.erasesize) (pos + n)
        (rs.map (·.feed pos (fun i => m.data (ofs + i)) n))
  else .ok rs
termination_by m.size - ofs
decreasing_by
  all_goals
    have := m.erasesize_pos
    omega

/-- `slot_verify`. -/
def verify (hdr : Nat → UInt8) : Option String :=
  let bodyLen := get32 hdr hFwSize
  if crc32 hdr 0 hCrc ≠ get32 hdr hCrc ∨ crc32 hdr 0 hCrc2 ≠ get32 hdr hCrc2 then
    some "version header CRC mismatch"
  else if get32 hdr hFsFileofs < get32 hdr hKernelFileofs then some "bad firmware layout"
  else if m.size < bodyLen then some "bad firmware layout"
  else if (regions hdr).any (fun r => bodyLen < r.start + r.len) then some "bad firmware layout"
  else
    match m.verifyLoop bodyLen 0 0 (regions hdr) with
    | .error why => some why
    | .ok rs => checkRegions rs

/-! ## What an intact partition is -/

/-- The good ones of the first `b` blocks. -/
def goodBelow (b : Nat) : List Nat := (List.range b).filter fun i => !m.bad (i * m.erasesize)

/-- The good blocks of the partition. -/
def good : List Nat := m.goodBelow (m.size / m.erasesize)

/-- The bytes of the good blocks, in order. -/
def payload : Nat → UInt8 := fun i =>
  m.data (m.good.getD (i / m.erasesize) 0 * m.erasesize + i % m.erasesize)

/-- From the `k`-th good block on, the reads that a body of that length needs succeed. -/
def ReadsFrom (bodyLen k : Nat) : Prop :=
  ∀ j, k ≤ j → j * m.erasesize < bodyLen →
    m.readOk (m.good.getD j 0 * m.erasesize) (min (bodyLen - j * m.erasesize) m.erasesize) = true

end Mtd

/-- Where the root filesystem starts in the body: behind the kernel's place, at the distance of the two
in the file. -/
def fsStart (hdr : Nat → UInt8) : Int :=
  (ubootSize + kernelMagicSize : Nat) + get32 hdr hFsFileofs - get32 hdr hKernelFileofs

/-- A slot that is sound: the header's own checksums, the three regions in the body, the body in the
good blocks, which can be read, and the checksums of the regions. -/
structure Mtd.Sound (m : Mtd) (hdr : Nat → UInt8) : Prop where
  crc : crc32 hdr 0 hCrc = get32 hdr hCrc
  crc2 : crc32 hdr 0 hCrc2 = get32 hdr hCrc2
  uboot : ubootSize ≤ get32 hdr hFwSize
  kernel : ubootSize + kernelMagicSize + get32 hdr hKernelSize ≤ get32 hdr hFwSize
  fs_ge : 0 ≤ fsStart hdr
  fs : fsStart hdr + get32 hdr hFsSize ≤ get32 hdr hFwSize
  fits : get32 hdr hFwSize ≤ m.good.length * m.erasesize
  reads : m.ReadsFrom (get32 hdr hFwSize) 0
  ubootCrc : crc32 m.payload 0 ubootSize = get32 hdr hUbootCrc
  kernelCrc : crc32 m.payload (ubootSize + kernelMagicSize) (get32 hdr hKernelSize) =
    get32 hdr hKernelCrc
  fsCrc : crc32 m.payload (fsStart hdr).toNat (get32 hdr hFsSize) = get32 hdr hFsCrc

/-- The chunks of a payload, fed to a region from byte `pos` on. -/
def feedChunks (m : Nat → UInt8) (r : Region) : Nat → List Nat → Region
  | _, [] => r
  | pos, n :: ns => feedChunks m (r.feed pos (fun i => m (pos + i)) n) (pos + n) ns

/-! ## Feeding -/

theorem feedChunks_fed (m : Nat → UInt8) (r : Region) (ns : List Nat) (pos : Nat) :
    feedChunks m (r.fed m pos) pos ns = r.fed m (pos + ns.sum) := by
  induction ns generalizing pos with
  | nil => rfl
  | cons n ns ih =>
    rw [feedChunks, r.feed_fed fun _ _ => rfl, ih, List.sum_cons, Nat.add_assoc]

/-- Chunks that reach the end of a region give its checksum, however they are cut. -/
theorem feedChunks_crc (m : Nat → UInt8) (r : Region) (ns : List Nat)
    (hend : r.start + r.len ≤ ns.sum) :
    (feedChunks m r 0 ns).crc = crc32Update r.crc m r.start r.len := by
  have hall : min (ns.sum - r.start) r.len = r.len := by omega
  have hfed := feedChunks_fed m r ns 0
  rw [r.fed_zero, Nat.zero_add] at hfed
  rw [hfed, Region.fed, hall, crc32Update_eq]

/-! ## The payload of a partition -/

section Payload

variable {m : Mtd}

theorem Mtd.goodBelow_succ_bad {b : Nat} (h : m.bad (b * m.erasesize) = true) :
    m.goodBelow (b + 1) = m.goodBelow b := by
  simp [Mtd.goodBelow, List.range_succ, h]

theorem Mtd.goodBelow_succ_good {b : Nat} (h : m.bad (b * m.erasesize) = false) :
    m.goodBelow (b + 1) = m.goodBelow b ++ [b] := by
  simp [Mtd.goodBelow, List.range_succ, h]

theorem Mtd.goodBelow_prefix {b c : Nat} (h : b ≤ c) : m.goodBelow b <+: m.goodBelow c := by
  induction c, h using Nat.le_induction with
  | base => exact List.prefix_rfl
  | succ c _ ih =>
    cases hbad : m.bad (c * m.erasesize) with
    | false =>
      rw [Mtd.goodBelow_succ_good hbad]
      exact ih.trans (List.prefix_append _ _)
    | true => rwa [Mtd.goodBelow_succ_bad hbad]

/-- The place of a good block in the payload. -/
theorem Mtd.getD_good {b : Nat} (hb : b < m.size / m.erasesize)
    (hgood : m.bad (b * m.erasesize) = false) : m.good.getD (m.goodBelow b).length 0 = b := by
  have hpre : m.goodBelow (b + 1) <+: m.good := m.goodBelow_prefix hb
  rw [Mtd.goodBelow_succ_good hgood] at hpre
  rw [getD_of_prefix_lt hpre (by simp), List.getD_eq_getElem?_getD,
    List.getElem?_append_right le_rfl]
  simp

theorem Mtd.payload_block {b i : Nat} (hb : b < m.size / m.erasesize)
    (hgood : m.bad (b * m.erasesize) = false) (hi : i < m.erasesize) :
    m.payload ((m.goodBelow b).length * m.erasesize + i) = m.data (b * m.erasesize + i) := by
  have hdiv : ((m.goodBelow b).length * m.erasesize + i) / m.erasesize = (m.goodBelow b).length := by
    rw [Nat.mul_comm, Nat.mul_add_div m.erasesize_pos, Nat.div_eq_of_lt hi, Nat.add_zero]
  have hmod : ((m.goodBelow b).length * m.erasesize + i) % m.erasesize = i := by
    rw [Nat.mul_comm, Nat.mul_add_mod, Nat.mod_eq_of_lt hi]
  rw [Mtd.payload, hdiv, hmod, Mtd.getD_good hb hgood]

/-- One read more. -/
theorem Mtd.readsFrom_succ {bodyLen k : Nat} (hk : k * m.erasesize < bodyLen) :
    m.ReadsFrom bodyLen k ↔
      m.readOk (m.good.getD k 0 * m.erasesize) (min (bodyLen - k * m.erasesize) m.erasesize) = true ∧
        m.ReadsFrom bodyLen (k + 1) := by
  constructor
  · exact fun h => ⟨h k le_rfl hk, fun j hj => h j (by omega)⟩
  · rintro ⟨hfirst, hrest⟩ j hj hlt
    rcases Nat.eq_or_lt_of_le hj with rfl | hgt
    · exact hfirst
    · exact hrest j hgt hlt

/-- Behind the body the loop ends. -/
theorem Mtd.verifyLoop_done {bodyLen b pos : Nat} (rs rs' : List Region)
    (hb : b ≤ m.size / m.erasesize)
    (hpos : pos = min ((m.goodBelow b).length * m.erasesize) bodyLen) (hge : ¬ pos < bodyLen) :
    m.verifyLoop bodyLen (b * m.erasesize) pos (rs.map (·.fed m.payload pos)) = .ok rs' ↔
      bodyLen ≤ m.good.length * m.erasesize ∧ m.ReadsFrom bodyLen (m.goodBelow b).length ∧
        rs' = rs.map (·.fed m.payload bodyLen) := by
  have hmono : (m.goodBelow b).length * m.erasesize ≤ m.good.length * m.erasesize :=
    Nat.mul_le_mul_right _ (m.goodBelow_prefix hb).length_le
  have hdone : pos = bodyLen := by omega
  rw [Mtd.verifyLoop, if_neg hge, hdone]
  refine ⟨fun h => ⟨by omega, fun j hj hlt => ?_, (Except.ok.inj h).symm⟩, fun h => by rw [h.2.2]⟩
  have := Nat.mul_le_mul_right m.erasesize hj
  omega

/-- The loop, from block `b` on: it ends well if the good blocks hold the body and can be read, with the
checksums over the payload. -/
theorem Mtd.verifyLoop_eq_ok_iff {bodyLen : Nat} (rs rs' : List Region) {fuel b pos : Nat}
    (hfuel : b + fuel = m.size / m.erasesize)
    (hpos : pos = min ((m.goodBelow b).length * m.erasesize) bodyLen) :
    m.verifyLoop bodyLen (b * m.erasesize) pos (rs.map (·.fed m.payload pos)) = .ok rs' ↔
      bodyLen ≤ m.good.length * m.erasesize ∧ m.ReadsFrom bodyLen (m.goodBelow b).length ∧
        rs' = rs.map (·.fed m.payload bodyLen) := by
  have hdiv := Nat.div_add_mod m.size m.erasesize
  induction fuel generalizing b pos with
  | zero =>
    have hb : b = m.size / m.erasesize := hfuel
    by_cases hlt : pos < bodyLen
    · -- the partition ends before the next whole block
      have hend : m.size < b * m.erasesize + m.erasesize := by
        have hmod := Nat.mod_lt m.size m.erasesize_pos
        rw [hb, Nat.mul_comm]
        omega
      have hgood : m.goodBelow b = m.good := by rw [hb]; rfl
      rw [Mtd.verifyLoop, if_pos hlt]
      dsimp only
      rw [if_pos hend]
      rw [hgood] at hpos
      exact ⟨fun h => (by cases h), fun h => absurd h.1 (by omega)⟩
    · exact Mtd.verifyLoop_done rs rs' (by omega) hpos hlt
  | succ fuel ih =>
    by_cases hlt : pos < bodyLen
    · have hb : b < m.size / m.erasesize := by omega
      have hroom : ¬ m.size < b * m.erasesize + m.erasesize := by
        have hle := Nat.mul_le_mul_right m.erasesize (Nat.succ_le_of_lt hb)
        rw [Nat.succ_mul, Nat.mul_comm (m.size / m.erasesize)] at hle
        omega
      have hstep : b * m.erasesize + m.erasesize = (b + 1) * m.erasesize := (Nat.succ_mul _ _).symm
      rw [Mtd.verifyLoop, if_pos hlt]
      dsimp only
      rw [if_neg hroom, hstep]
      cases hbad : m.bad (b * m.erasesize) with
      | true =>
        have hnext := @ih (b + 1) pos (by omega) (by rwa [Mtd.goodBelow_succ_bad hbad])
        rwa [Mtd.goodBelow_succ_bad hbad] at hnext
      | false =>
        rw [if_neg Bool.false_ne_true]
        have hat : pos = (m.goodBelow b).length * m.erasesize := by omega
        generalize hn : (if bodyLen - pos < m.erasesize then bodyLen - pos else m.erasesize) = n
        have hn : n = min (bodyLen - pos) m.erasesize := by
          rw [← hn]
          split <;> omega
        have hread := @Mtd.readsFrom_succ m bodyLen (m.goodBelow b).length (by omega)
        rw [Mtd.getD_good hb hbad, ← hat, ← hn] at hread
        cases hok : m.readOk (b * m.erasesize) n with
        | false =>
          rw [hok] at hread
          simp only [Bool.not_false, if_true, reduceCtorEq, false_iff]
          exact fun h => absurd (hread.mp h.2.1).1 Bool.false_ne_true
        | true =>
          have hfed : (rs.map (·.fed m.payload pos)).map
              (·.feed pos (fun i => m.data (b * m.erasesize + i)) n) =
              rs.map (·.fed m.payload (pos + n)) := by
            rw [List.map_map]
            refine List.map_congr_left (fun r _ => r.feed_fed fun i hi => ?_)
            rw [hat, Mtd.payload_block hb hbad (by omega)]
          have hlen : (m.goodBelow (b + 1)).length = (m.goodBelow b).length + 1 := by
            rw [Mtd.goodBelow_succ_good hbad, List.length_append, List.length_singleton]
          rw [hok, and_iff_right rfl] at hread
          simp only [Bool.not_true, Bool.false_eq_true, if_false]
          have hnext := @ih (b + 1) (pos + n) (by omega) (by rw [hlen, Nat.succ_mul]; omega)
          rw [hlen] at hnext
          rw [hfed, hread]
          exact hnext
    · exact Mtd.verifyLoop_done rs rs' (by omega) hpos hlt

end Payload

/-! ## Sound slots -/

theorem Mtd.good_le (m : Mtd) : m.good.length * m.erasesize ≤ m.size := by
  have hlen := List.length_filter_le (fun i => !m.bad (i * m.erasesize))
    (List.range (m.size / m.erasesize))
  rw [List.length_range] at hlen
  exact Nat.le_trans (Nat.mul_le_mul_right _ hlen) (Nat.div_mul_le_self _ _)

/-- With the root filesystem behind the kernel, soundness is about the three regions of the loop. -/
theorem sound_iff_regions {m : Mtd} {hdr : Nat → UInt8}
    (horder : get32 hdr hKernelFileofs ≤ get32 hdr hFsFileofs) :
    m.Sound hdr ↔ crc32 hdr 0 hCrc = get32 hdr hCrc ∧ crc32 hdr 0 hCrc2 = get32 hdr hCrc2 ∧
      (∀ r ∈ regions hdr, r.start + r.len ≤ get32 hdr hFwSize) ∧
      (get32 hdr hFwSize ≤ m.good.length * m.erasesize ∧ m.ReadsFrom (get32 hdr hFwSize) 0) ∧
      ∀ r ∈ regions hdr, crc32 m.payload r.start r.len = r.want := by
  have hstart : fsStart hdr = (ubootSize + kernelMagicSize +
      (get32 hdr hFsFileofs - get32 hdr hKernelFileofs) : Nat) := by
    unfold fsStart
    omega
  rw [forall_regions, forall_regions]
  dsimp only
  constructor
  · intro h
    have hfs := h.fs
    have hcrc := h.fsCrc
    rw [hstart] at hfs hcrc
    rw [Int.toNat_natCast] at hcrc
    exact ⟨h.crc, h.crc2, ⟨by have := h.uboot; omega, h.kernel, by omega⟩, ⟨h.fits, h.reads⟩,
      h.ubootCrc, h.kernelCrc, hcrc⟩
  · rintro ⟨hcrc, hcrc2, ⟨huboot, hkernel, hfs⟩, ⟨hfits, hreads⟩, hubootCrc, hkernelCrc, hfsCrc⟩
    refine ⟨hcrc, hcrc2, by omega, hkernel, by omega, by omega, hfits, hreads, hubootCrc, hkernelCrc, ?_⟩
    rw [hstart, Int.toNat_natCast]
    exact hfsCrc

/-- The checks behind the loop, for regions that were fed all of a body they lie in. -/
theorem checkRegions_fed {hdr payload : Nat → UInt8} {bodyLen : Nat}
    (hinside : ∀ r ∈ regions hdr, r.start + r.len ≤ bodyLen) :
    checkRegions ((regions hdr).map (·.fed payload bodyLen)) = none ↔
      ∀ r ∈ regions hdr, crc32 payload r.start r.len = r.want := by
  rw [checkRegions_eq_none_iff, List.forall_mem_map]
  refine forall₂_congr fun r hr => ?_
  have hall : min (bodyLen - r.start) r.len = r.len := by
    have := hinside r hr
    omega
  simp only [Region.fed]
  rw [hall, regions_crc hr, crc32, crc32Update_eq]

/-- Behind the checks of the header, the loop and what follows it look at the payload. -/
theorem Mtd.verify_loop_iff {m : Mtd} {hdr : Nat → UInt8}
    (hinside : ∀ r ∈ regions hdr, r.start + r.len ≤ get32 hdr hFwSize) :
    (match m.verifyLoop (get32 hdr hFwSize) 0 0 (regions hdr) with
      | .error why => some why
      | .ok rs => checkRegions rs) = none ↔
      (get32 hdr hFwSize ≤ m.good.length * m.erasesize ∧ m.ReadsFrom (get32 hdr hFwSize) 0) ∧
        ∀ r ∈ regions hdr, crc32 m.payload r.start r.len = r.want := by
  have hstart : (regions hdr).map (·.fed m.payload 0) = regions hdr := by
    conv_rhs => rw [← List.map_id (regions hdr)]
    exact List.map_congr_left (fun r _ => r.fed_zero _)
  have hloop := fun rs' => @Mtd.verifyLoop_eq_ok_iff m (get32 hdr hFwSize) (regions hdr) rs'
    (m.size / m.erasesize) 0 0 (by omega) (by simp [Mtd.goodBelow])
  rw [Nat.zero_mul, hstart] at hloop
  have hzero : (m.goodBelow 0).length = 0 := rfl
  rw [hzero] at hloop
  cases hres : m.verifyLoop (get32 hdr hFwSize) 0 0 (regions hdr) with
  | error why =>
    simp only [reduceCtorEq, false_iff]
    rintro ⟨⟨hfits, hreads⟩, -⟩
    have hok := (hloop _).mpr ⟨hfits, hreads, rfl⟩
    rw [hres] at hok
    cases hok
  | ok rs =>
    obtain ⟨hfits, hreads, rfl⟩ := (hloop rs).mp hres
    dsimp only
    rw [checkRegions_fed hinside, and_iff_right ⟨hfits, hreads⟩]

/-- For every header and every partition: `slot_verify` finds nothing wrong exactly if the slot is sound
and the root filesystem is not in front of the kernel; and a region fed in chunks has its checksum. -/
theorem verify_eq_none_iff_sound (m : Mtd) (hdr : Nat → UInt8) :
    (m.verify hdr = none ↔ get32 hdr hKernelFileofs ≤ get32 hdr hFsFileofs ∧ m.Sound hdr) ∧
      ∀ (buf : Nat → UInt8) (r : Region) (ns : List Nat), r.start + r.len ≤ ns.sum →
        (feedChunks buf r 0 ns).crc = crc32Update r.crc buf r.start r.len := by
  refine ⟨?_, feedChunks_crc⟩
  have hsize := m.good_le
  unfold Mtd.verify
  dsimp only
  split
  · next hcrcs =>
    simp only [reduceCtorEq, false_iff]
    rintro ⟨-, hsound⟩
    exact hcrcs.elim (fun h => h hsound.crc) (fun h => h hsound.crc2)
  · next hcrcs =>
    rw [not_or, not_not, not_not] at hcrcs
    split
    · simp only [reduceCtorEq, false_iff]
      omega
    · next horder =>
      have horder : get32 hdr hKernelFileofs ≤ get32 hdr hFsFileofs := Nat.le_of_not_lt horder
      rw [and_iff_right horder, sound_iff_regions horder, and_iff_right hcrcs.1, and_iff_right hcrcs.2]
      split
      · simp only [reduceCtorEq, false_iff]
        rintro ⟨-, ⟨hfits, -⟩, -⟩
        omega
      · split
        · next hany =>
          obtain ⟨r, hr, hgt⟩ := List.any_eq_true.mp hany
          simp only [reduceCtorEq, false_iff]
          rintro ⟨hinside, -⟩
          have := hinside r hr
          have := of_decide_eq_true hgt
          omega
        · next hnone =>
          have hinside : ∀ r ∈ regions hdr, r.start + r.len ≤ get32 hdr hFwSize := by
            intro r hr
            by_contra hgt
            exact hnone (List.any_eq_true.mpr ⟨r, hr, by simpa using hgt⟩)
          rw [Mtd.verify_loop_iff hinside, and_iff_right hinside]

/-! ### A root filesystem in front of the kernel -/

/-- Fourteen good blocks with the body of the sample. -/
def sampleMtd : Mtd where
  erasesize := 0x20000
  size := 14 * 0x20000
  erasesize_pos := by decide
  bad := fun _ => false
  readOk := fun _ _ => true
  data := sampleBody

theorem sampleMtd_good : sampleMtd.good = List.range 14 := by
  unfold Mtd.good Mtd.goodBelow
  exact List.filter_eq_self.mpr fun _ _ => rfl

theorem sampleMtd_payload {i : Nat} (hi : i < 14 * 0x20000) : sampleMtd.payload i = sampleBody i := by
  have hidx : i / 0x20000 < (List.range 14).length := by
    rw [List.length_range]
    omega
  have hdiv := Nat.div_add_mod i 0x20000
  unfold Mtd.payload
  rw [sampleMtd_good]
  show sampleBody ((List.range 14).getD (i / 0x20000) 0 * 0x20000 + i % 0x20000) = sampleBody i
  rw [List.getD_eq_getElem?_getD, List.getElem?_eq_getElem hidx, List.getElem_range, Option.getD_some,
    Nat.mul_comm, hdiv]

/-- A slot with an empty root filesystem one byte in front of the kernel is sound, and is called
damaged. -/
theorem verify_sampleMtd : sampleMtd.Sound (samplePackage 1).hdr ∧
    sampleMtd.verify (samplePackage 1).hdr ≠ none := by
  obtain ⟨hcrc, hcrc2⟩ := @samplePackage_crcs 1
  obtain ⟨-, -, hsize, huboot⟩ := load_ok (@samplePackage_load 1 (by decide))
  obtain ⟨hks, hkc, hfs, hfo, hfc⟩ := @samplePackage_empty 1
  have hko := @samplePackage_koff 1 (by decide)
  rw [samplePackage_bodyLen] at hsize
  rw [samplePackage_body] at huboot
  have hstart : fsStart (samplePackage 1).hdr = (ubootSize + kernelMagicSize - 1 : Nat) := by
    unfold fsStart
    rw [hko, hfo]
    decide
  constructor
  · refine ⟨hcrc, hcrc2, ?_, ?_, ?_, ?_, ?_, fun _ _ _ => rfl, ?_, ?_, ?_⟩
    · rw [hsize]
      decide
    · rw [hsize, hks]
      decide
    · rw [hstart]
      decide
    · rw [hstart, hsize, hfs]
      decide
    · rw [hsize, sampleMtd_good, List.length_range]
      decide
    · rw [← huboot]
      refine crc32_congr fun i hi => sampleMtd_payload ?_
      unfold ubootSize at hi
      omega
    · rw [hks, hkc, crc32_empty]
    · rw [hfs, hfc, crc32_empty]
  · unfold Mtd.verify
    dsimp only
    split
    · exact Option.some_ne_none _
    · rw [if_pos (by rw [hfo, hko]; decide)]
      exact Option.some_ne_none _

/-! ## Slots as partitions -/

/-- The partition of a slot whose blocks can all be read. -/
def Slot.mtd (g : Geom) (s : Slot) : Mtd where
  erasesize := g.bs
  size := s.blocks * g.bs
  erasesize_pos := g.bs_pos
  bad := fun ofs => s.bad (ofs / g.bs)
  readOk := fun _ _ => true
  data := fun a => s.mem (a / g.bs) (a % g.bs)

/-- A region looks at the bytes of the chunk only. -/
theorem Region.feed_congr (r : Region) {buf buf' : Nat → UInt8} {pos n : Nat}
    (h : ∀ i < n, buf i = buf' i) : r.feed pos buf n = r.feed pos buf' n := by
  unfold Region.feed
  dsimp only
  generalize hhi : (if pos + n < r.start + r.len then pos + n else r.start + r.len) = hi
  generalize hlo : (if r.start < pos then pos else r.start) = lo
  have hhi : hi ≤ pos + n := by
    rw [← hhi]
    split <;> omega
  have hlo : pos ≤ lo := by
    rw [← hlo]
    split <;> omega
  rw [crc32Update_eq, crc32Update_eq, crc32Le_congr _ fun i hi' => h _ (by omega)]

theorem verifyLoop_slotMtd (g : Geom) (s : Slot) (bodyLen : Nat) {fuel b pos : Nat} (rs : List Region)
    (hfuel : b + fuel = s.blocks) :
    (s.mtd g).verifyLoop bodyLen (b * g.bs) pos rs = s.feedLoop g bodyLen fuel b pos rs := by
  have hbs := g.bs_pos
  induction fuel generalizing b pos rs with
  | zero =>
    rw [Mtd.verifyLoop, Slot.feedLoop]
    have hend : (s.mtd g).size < b * g.bs + (s.mtd g).erasesize := by
      show s.blocks * g.bs < b * g.bs + g.bs
      rw [← hfuel, Nat.add_zero]
      omega
    by_cases hlt : pos < bodyLen
    · rw [if_pos hlt, if_pos hlt]
      exact if_pos hend
    · rw [if_neg hlt, if_neg hlt]
  | succ fuel ih =>
    have hb : b < s.blocks := by omega
    have hroom : ¬ (s.mtd g).size < b * g.bs + (s.mtd g).erasesize := by
      have hle := Nat.mul_le_mul_right g.bs (Nat.succ_le_of_lt hb)
      rw [Nat.succ_mul] at hle
      exact Nat.not_lt.mpr hle
    have hstep : b * g.bs + (s.mtd g).erasesize = (b + 1) * g.bs := (Nat.succ_mul _ _).symm
    have hbad : (s.mtd g).bad (b * g.bs) = s.bad b := congrArg s.bad (Nat.mul_div_cancel b hbs)
    rw [Mtd.verifyLoop, Slot.feedLoop]
    by_cases hlt : pos < bodyLen
    · rw [if_pos hlt, if_pos hlt]
      dsimp only
      rw [if_neg hroom, hstep, hbad]
      cases s.bad b with
      | true => exact ih rs (by omega)
      | false =>
        have hes : (s.mtd g).erasesize = g.bs := rfl
        have hread : (s.mtd g).readOk = fun _ _ => true := rfl
        rw [hes, hread]
        generalize hn : (if bodyLen - pos < g.bs then bodyLen - pos else g.bs) = n
        have hn : n ≤ g.bs := by
          rw [← hn]
          split <;> omega
        have hfeed : rs.map (·.feed pos (fun i => (s.mtd g).data (b * g.bs + i)) n) =
            rs.map (·.feed pos (s.mem b) n) := by
          refine List.map_congr_left fun r _ => r.feed_congr fun i hi => ?_
          show s.mem ((b * g.bs + i) / g.bs) ((b * g.bs + i) % g.bs) = s.mem b i
          rw [Nat.mul_comm, Nat.mul_add_div hbs, Nat.div_eq_of_lt (by omega), Nat.add_zero,
            Nat.mul_add_mod, Nat.mod_eq_of_lt (by omega)]
        rw [hfeed]
        exact ih _ (by omega)
    · rw [if_neg hlt, if_neg hlt]

/-- On a slot both models of `slot_verify` report the same. -/
theorem verify_slotMtd (g : Geom) (s : Slot) (hdr : Nat → UInt8) :
    (s.mtd g).verify hdr = s.verify g hdr := by
  have hloop := @verifyLoop_slotMtd g s (get32 hdr hFwSize) s.blocks 0 0 (regions hdr) (by omega)
  rw [Nat.zero_mul] at hloop
  unfold Mtd.verify Slot.verify
  dsimp only
  rw [hloop]
  rfl

end Lede.FwSlot
